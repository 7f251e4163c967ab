import OpTree.Print.Lines
import OpTree.Proofs.Clean
import OpTree.Proofs.ValueNames

/-!
What stands on the lines of a program that is printed with locations: the names of values, the
labels of blocks, and of operations what stands in front of their regions and behind them. All of
it can be told from the text.
-/

namespace OpTree

open OpTree.Data OpTree.IR OpTree.Text

/-! ### Locations -/

namespace IR.Location

/-- What stands behind a location. -/
def Ends (x : List Char) : Prop := ∀ c ∈ x.head?, c ≠ ':' ∧ c.isDigit = false

lemma ends_cons {c : Char} (hc : c ≠ ':' ∧ c.isDigit = false) (x : List Char) : Ends (c :: x) := by
  intro d hd
  obtain rfl : c = d := by simpa using hd
  exact hc

lemma ends_of_follows {x : List Char} (hx : Follows ']' x) : Ends x := by
  obtain ⟨r, rfl | rfl⟩ := hx
  · exact ends_cons (by decide) r
  · exact ends_cons (by decide) _

lemma toList_text_unknown : unknown.text.toList = ['u', 'n', 'k', 'n', 'o', 'w', 'n'] := by
  rw [text]
  rfl

lemma toList_text_fileLineCol (file : String) (line column : UInt32) :
    (fileLineCol file line column).text.toList = '"' :: (file.toList ++ '"' :: ':' ::
      (Nat.toDigits 10 line.toNat ++ ':' :: Nat.toDigits 10 column.toNat)) := by
  rw [text]
  simp only [String.toList_append, toList_toString_nat, List.append_assoc]
  rfl

lemma toList_text_name (n : String) : (name n).text.toList = '"' :: (n.toList ++ ['"']) := by
  rw [text, String.toList_append, String.toList_append, List.append_assoc]
  rfl

lemma toList_text_fused (parts : List Location) :
    (fused parts).text.toList = ['f', 'u', 's', 'e', 'd', '['] ++
      ([',', ' '].intercalate (parts.map fun l => l.text.toList) ++ [']']) := by
  rw [text, String.toList_append, String.toList_append, Ty.toList_commaList, List.map_map,
    List.append_assoc]
  rfl

def initial : Location → Char
  | unknown => 'u'
  | fileLineCol .. => '"'
  | name _ => '"'
  | fused _ => 'f'

lemma exists_text_eq_cons (l : Location) : ∃ r, l.text.toList = l.initial :: r := by
  cases l with
  | unknown => exact ⟨_, toList_text_unknown⟩
  | fileLineCol file line column => exact ⟨_, toList_text_fileLineCol file line column⟩
  | name n => exact ⟨_, toList_text_name n⟩
  | fused parts => exact ⟨_, toList_text_fused parts⟩

lemma initial_eq {l m : Location} {x y : List Char}
    (h : l.text.toList ++ x = m.text.toList ++ y) : l.initial = m.initial := by
  obtain ⟨r, hr⟩ := l.exists_text_eq_cons
  obtain ⟨r', hr'⟩ := m.exists_text_eq_cons
  rw [hr, hr'] at h
  exact (List.cons.inj h).1

lemma quoted_append_inj {s t : String} {x y : List Char} (hs : '"' ∉ s.toList)
    (ht : '"' ∉ t.toList) (h : s.toList ++ '"' :: x = t.toList ++ '"' :: y) : s = t ∧ x = y := by
  have hinner {s : String} (hs : '"' ∉ s.toList) : ∀ c ∈ s.toList, decide (c ≠ '"') = true :=
    fun c hc => decide_eq_true fun h => hs (h ▸ hc)
  have hquote (x : List Char) : ∀ c ∈ ('"' :: x).head?, decide (c ≠ '"') = false := by simp
  obtain ⟨hst, hxy⟩ := span_inj (hinner hs) (hinner ht) (hquote x) (hquote y) h
  exact ⟨String.toList_inj.mp hst, (List.cons.inj hxy).2⟩

/-- **A location can be told from its text** if there are no quotes in its names. -/
theorem text_append_inj {l m : Location} {x y : List Char} (hl : ∀ s ∈ l.names, '"' ∉ s.toList)
    (hm : ∀ s ∈ m.names, '"' ∉ s.toList) (hx : Ends x) (hy : Ends y)
    (h : l.text.toList ++ x = m.text.toList ++ y) : l = m ∧ x = y := by
  -- a name alone is not followed by a position
  have hcolon {x z : List Char} (hx : Ends x) : x ≠ ':' :: z := by
    rintro rfl
    exact (hx ':' rfl).1 rfl
  have hinitial := initial_eq h
  induction l using Location.nested_induction generalizing m x y with
  | unknown =>
    cases m <;> simp only [initial, Char.reduceEq] at hinitial
    exact ⟨rfl, List.append_cancel_left h⟩
  | fileLineCol file line column =>
    cases m <;> simp only [initial, Char.reduceEq] at hinitial
    case fileLineCol file' line' column' =>
      simp only [toList_text_fileLineCol, List.cons_append, List.append_assoc] at h
      obtain ⟨rfl, hrest⟩ := quoted_append_inj (hl file (by simp [names]))
        (hm file' (by simp [names])) (List.cons.inj h).2
      have hline (z : List Char) : ∀ c ∈ (':' :: z).head?, c.isDigit = false := by simp
      obtain ⟨hline, hrest⟩ := toDigits_append_inj (hline _) (hline _) (List.cons.inj hrest).2
      obtain ⟨hcolumn, hxy⟩ := toDigits_append_inj (fun c hc => (hx c hc).2)
        (fun c hc => (hy c hc).2) (List.cons.inj hrest).2
      rw [UInt32.toNat_inj] at hline hcolumn
      exact ⟨by rw [hline, hcolumn], hxy⟩
    case name n =>
      simp only [toList_text_fileLineCol, toList_text_name, List.cons_append, List.append_assoc,
        List.nil_append] at h
      obtain ⟨-, hrest⟩ := quoted_append_inj (hl file (by simp [names]))
        (hm n (by simp [names])) (List.cons.inj h).2
      exact absurd hrest.symm (hcolon hy)
  | name n =>
    cases m <;> simp only [initial, Char.reduceEq] at hinitial
    case fileLineCol file line column =>
      simp only [toList_text_fileLineCol, toList_text_name, List.cons_append, List.append_assoc,
        List.nil_append] at h
      obtain ⟨-, hrest⟩ := quoted_append_inj (hl n (by simp [names]))
        (hm file (by simp [names])) (List.cons.inj h).2
      exact absurd hrest (hcolon hx)
    case name n' =>
      simp only [toList_text_name, List.cons_append, List.append_assoc, List.nil_append] at h
      obtain ⟨rfl, hxy⟩ := quoted_append_inj (hl n (by simp [names]))
        (hm n' (by simp [names])) (List.cons.inj h).2
      exact ⟨rfl, hxy⟩
  | fused parts ih =>
    cases m <;> simp only [initial, Char.reduceEq] at hinitial
    rename_i parts'
    have hpart {l : Location} {parts : List Location} (hmem : l ∈ parts)
        (h : ∀ s ∈ (fused parts).names, '"' ∉ s.toList) : ∀ s ∈ l.names, '"' ∉ s.toList := by
      intro s hs
      rw [names] at h
      exact h s (List.mem_flatMap.mpr ⟨l, hmem, hs⟩)
    have hhead (l : Location) : ∃ c r, l.text.toList = c :: r ∧ c ≠ ']' := by
      obtain ⟨r, hr⟩ := l.exists_text_eq_cons
      exact ⟨_, r, hr, by cases l <;> simp [initial]⟩
    simp only [toList_text_fused, List.append_assoc, List.singleton_append] at h
    obtain ⟨hparts, hxy⟩ := intercalate_append_inj_of_follows (g := id) (by decide)
      (fun l hmem m hmem' x y hx hy h => ih l hmem (hpart hmem hl) (hpart hmem' hm)
        (ends_of_follows hx) (ends_of_follows hy) h (initial_eq h))
      (fun l _ => hhead l) (fun l _ => hhead l) (List.append_cancel_left h)
    rw [List.map_id, List.map_id] at hparts
    exact ⟨by rw [hparts], hxy⟩

end IR.Location

namespace Print

/-! ### Operations in front of their regions -/

/-- A session that shows locations and is otherwise as usual. -/
def located (n : Names) : Session := ⟨{ debugInfo := true }, false, n, none⟩

section

variable {n m : Names} (hn : n.Proper) (hm : m.Proper)

lemma toList_nameList (vs : List Value) : ((located n).nameList vs).toList =
    [',', ' '].intercalate ((vs.map n.name).map String.toList) :=
  Ty.toList_commaList _

lemma toList_head (op : Operation) : ((located n).head op).toList =
    (if op.results.isEmpty then []
      else ((located n).nameList op.results).toList ++ [' ', '=', ' ']) ++
    ((quote op.name).toList ++ '(' :: (((located n).nameList op.operands).toList ++ [')'])) := by
  rw [Session.head]
  simp only [String.toList_append, List.append_assoc]
  congr 1
  split
  · rfl
  · rw [String.toList_append]
    rfl

lemma exists_quote_eq_cons (s : String) : ∃ r, (quote s).toList = '"' :: r := by
  rw [quote, String.toList_ofList]
  exact ⟨_, rfl⟩

include hn in
lemma exists_nameList_eq_cons {vs : List Value} (hvs : n.Covers vs) (hne : ¬vs.isEmpty = true) :
    ∃ r, ((located n).nameList vs).toList = '%' :: r := by
  cases vs with
  | nil => exact absurd rfl hne
  | cons v vs =>
    obtain ⟨w, hw, -⟩ := hn.isValueName hvs (n.name v) (by simp)
    rw [toList_nameList, List.map_cons, List.map_cons, intercalate_cons, hw]
    exact ⟨_, rfl⟩

include hn in
lemma exists_head_eq_cons {op : Operation} (h : n.Covers op.results) :
    ∃ c r, ((located n).head op).toList = c :: r ∧ c ∈ ['%', '"'] := by
  rw [toList_head]
  split
  · obtain ⟨r, hr⟩ := exists_quote_eq_cons op.name
    exact ⟨'"', _, by rw [hr]; rfl, by decide⟩
  · rename_i hne
    obtain ⟨r, hr⟩ := exists_nameList_eq_cons hn h hne
    exact ⟨'%', _, by rw [hr]; rfl, by decide⟩

include hn hm

lemma nameList_append_inj {vs ws : List Value} {c : Char} {x y : List Char} (hvs : n.Covers vs)
    (hws : m.Covers ws) (hcomma : c ≠ ',') (hsign : c ≠ '%') (hc : isWordChar c = false)
    (h : ((located n).nameList vs).toList ++ c :: x = ((located m).nameList ws).toList ++ c :: y) :
    vs.map n.name = ws.map m.name ∧ x = y := by
  have hvs := hn.isValueName hvs
  have hws := hm.isValueName hws
  rw [toList_nameList, toList_nameList] at h
  simpa using intercalate_append_inj (g := id) hcomma hc
    (fun s hs t ht => tells_valueName (hvs s hs) (hws t ht))
    (fun s hs => exists_valueName_ne (hvs s hs) hsign)
    (fun s hs => exists_valueName_ne (hws s hs) hsign) h

/-- What stands in front of the regions of an operation can be told. -/
theorem head_append_inj {a b : Operation} {x y : List Char} (ha : n.Covers a.results)
    (ha' : n.Covers a.operands) (hb : m.Covers b.results) (hb' : m.Covers b.operands)
    (h : ((located n).head a).toList ++ x = ((located m).head b).toList ++ y) :
    a.name = b.name ∧ a.results.map n.name = b.results.map m.name ∧
      a.operands.map n.name = b.operands.map m.name ∧ x = y := by
  -- from the name of the operation on
  have hrest (h : (quote a.name).toList ++
        '(' :: (((located n).nameList a.operands).toList ++ ')' :: x) =
      (quote b.name).toList ++ '(' :: (((located m).nameList b.operands).toList ++ ')' :: y)) :
      a.name = b.name ∧ a.operands.map n.name = b.operands.map m.name ∧ x = y := by
    obtain ⟨hname, h⟩ := tells_quote a.name b.name _ _ (stops_cons (by decide) _)
      (stops_cons (by decide) _) h
    exact ⟨hname, nameList_append_inj hn hm ha' hb' (by decide) (by decide) (by decide)
      (List.cons.inj h).2⟩
  rw [toList_head, toList_head] at h
  by_cases hea : a.results.isEmpty = true <;> by_cases heb : b.results.isEmpty = true
  · rw [if_pos hea, if_pos heb] at h
    simp only [List.nil_append, List.append_assoc, List.cons_append] at h
    obtain ⟨hname, hoperands, hxy⟩ := hrest h
    rw [List.isEmpty_iff] at hea heb
    exact ⟨hname, by rw [hea, heb, List.map_nil, List.map_nil], hoperands, hxy⟩
  · obtain ⟨r, hr⟩ := exists_quote_eq_cons a.name
    obtain ⟨r', hr'⟩ := exists_nameList_eq_cons hm hb heb
    rw [if_pos hea, if_neg heb, hr, hr'] at h
    exact absurd (List.cons.inj h).1 (by decide)
  · obtain ⟨r, hr⟩ := exists_nameList_eq_cons hn ha hea
    obtain ⟨r', hr'⟩ := exists_quote_eq_cons b.name
    rw [if_neg hea, if_pos heb, hr, hr'] at h
    exact absurd (List.cons.inj h).1 (by decide)
  · rw [if_neg hea, if_neg heb] at h
    simp only [List.nil_append, List.append_assoc, List.cons_append] at h
    obtain ⟨hresults, h⟩ := nameList_append_inj hn hm ha hb (by decide) (by decide) (by decide) h
    simp only [List.cons.injEq, true_and] at h
    obtain ⟨hname, hoperands, hxy⟩ := hrest h
    exact ⟨hname, hresults, hoperands, hxy⟩

end

/-! ### Operations behind their regions -/

lemma exists_word_eq_cons {s : String} (hs : IsWord s) :
    ∃ c r, s.toList = c :: r ∧ isWordChar c = true := by
  obtain ⟨c, r, hcr⟩ := List.exists_cons_of_ne_nil hs.1
  exact ⟨c, r, hcr, hs.2 c (by simp [hcr])⟩

section

variable {f : Flags} (hf : f.elideAbove = none)

/-- What stands behind the name of an attribute. -/
def valueChars (f : Flags) (a : Attribute) : List Char :=
  if a.isUnit then [] else ' ' :: '=' :: ' ' :: (attributeText f a).toList

lemma toList_entryText (e : String × Attribute) :
    (entryText f e).toList = e.1.toList ++ valueChars f e.2 := by
  unfold entryText valueChars
  split
  · rw [List.append_nil]
  · rw [String.toList_append, String.toList_append, List.append_assoc]
    rfl

lemma eq_unit_of_isUnit {a : Attribute} (h : a.isUnit = true) : a = .unit := by
  cases a <;> first | rfl | cases h

include hf

lemma valueChars_append_inj {a b : Attribute} (ha : ∀ l ∈ a.leaves, l.Plain)
    (hb : ∀ l ∈ b.leaves, l.Plain) {x y : List Char} (hx : Follows '}' x) (hy : Follows '}' y)
    (h : valueChars f a ++ x = valueChars f b ++ y) : a = b ∧ x = y := by
  have hnext {x z : List Char} (hx : Follows '}' x) : x ≠ ' ' :: z := by
    rintro rfl
    obtain ⟨r, h | h⟩ := hx <;> exact absurd (List.cons.inj h).1 (by decide)
  have hsymbols {a : Attribute} (ha : ∀ l ∈ a.leaves, l.Plain) (name : String)
      (h : .symbol name ∈ a.leaves) : ∀ c ∈ name.toList, isWordChar c = true := by
    have hword : IsWord name := ha _ h
    exact hword.2
  unfold valueChars at h
  by_cases hua : a.isUnit = true <;> by_cases hub : b.isUnit = true
  · rw [if_pos hua, if_pos hub] at h
    rw [eq_unit_of_isUnit hua, eq_unit_of_isUnit hub]
    exact ⟨rfl, h⟩
  · rw [if_pos hua, if_neg hub] at h
    exact absurd h (hnext hx)
  · rw [if_neg hua, if_pos hub] at h
    exact absurd h.symm (hnext hy)
  · rw [if_neg hua, if_neg hub] at h
    simp only [List.cons_append, List.cons.injEq, true_and] at h
    obtain ⟨hab, hxy⟩ := tells_attributeText hf a b (hsymbols ha) (hsymbols hb) x y
      (hx.stops (by decide)) (hy.stops (by decide)) h
    exact ⟨Attribute.eq_of_normal ha hb hab, hxy⟩

lemma entryText_append_inj {e e' : String × Attribute} (he : IsWord e.1) (he' : IsWord e'.1)
    (hplain : ∀ l ∈ e.2.leaves, l.Plain) (hplain' : ∀ l ∈ e'.2.leaves, l.Plain) {x y : List Char}
    (hx : Follows '}' x) (hy : Follows '}' y)
    (h : (entryText f e).toList ++ x = (entryText f e').toList ++ y) : e = e' ∧ x = y := by
  have hstops (a : Attribute) {x : List Char} (hx : Follows '}' x) :
      Stops (valueChars f a ++ x) := by
    unfold valueChars
    split
    · exact hx.stops (by decide)
    · exact stops_cons (by decide) _
  rw [toList_entryText, toList_entryText, List.append_assoc, List.append_assoc] at h
  obtain ⟨hkey, h⟩ := tells_word he.2 he'.2 _ _ (hstops e.2 hx) (hstops e'.2 hy) h
  obtain ⟨hvalue, hxy⟩ := valueChars_append_inj hf hplain hplain' hx hy h
  exact ⟨Prod.ext (String.toList_inj.mp hkey) hvalue, hxy⟩

end

/-- The attributes of an operation with a blank in front of them, if there are any. -/
def attributeChars (op : Operation) : List Char :=
  bracketed [' ', '{'] '}'
    (op.attributes.entries.map fun e => (entryText { debugInfo := true } e).toList)

lemma toList_tail (n : Names) (op : Operation) : ((located n).tail op).toList =
    attributeChars op ++ ' ' :: ':' :: ' ' :: ((signature op).text.toList ++
      ([' ', 'l', 'o', 'c', '('] ++ (op.location.text.toList ++ [')']))) := by
  have hattributes : (if (attributesText (located n).flags op).isEmpty then ""
      else " " ++ attributesText (located n).flags op).toList = attributeChars op := by
    unfold attributesText attributeChars bracketed
    rw [List.isEmpty_map]
    by_cases hempty : op.attributes.entries.isEmpty = true
    · rw [OrderedMap.isEmpty, if_pos hempty, if_pos hempty]
      rfl
    · have hne (s : String) : ¬("\x7b" ++ s ++ "\x7d").isEmpty = true := by
        rw [String.isEmpty_iff, ← String.toList_inj, String.toList_append, String.toList_append]
        exact List.cons_ne_nil _ _
      rw [OrderedMap.isEmpty, if_neg hempty, if_neg (hne _), if_neg hempty]
      simp only [String.toList_append, Ty.toList_commaList, List.map_map]
      rfl
  have hlocation : ((located n).locationText op).toList =
      [' ', 'l', 'o', 'c', '('] ++ (op.location.text.toList ++ [')']) := by
    have hshown : (located n).locationText op = " loc(" ++ op.location.text ++ ")" := rfl
    rw [hshown, String.toList_append, String.toList_append, List.append_assoc]
    rfl
  have husers : ((located n).usersComment op).toList = [] := rfl
  rw [Session.tail]
  simp only [String.toList_append, hattributes, hlocation, husers, List.append_assoc,
    List.append_nil]
  rfl

lemma attributeChars_append_inj {a b : Operation} (ha : a.Plain) (hb : b.Plain) {x y : List Char}
    (h : attributeChars a ++ ' ' :: ':' :: x = attributeChars b ++ ' ' :: ':' :: y) :
    a.attributes = b.attributes ∧ x = y := by
  have hbrace {e : String × Attribute} (he : IsWord e.1) :
      ∃ c r, (entryText { debugInfo := true } e).toList = c :: r ∧ c ≠ '}' := by
    obtain ⟨c, r, hcr, hc⟩ := exists_word_eq_cons he
    refine ⟨c, _, by rw [toList_entryText, hcr, List.cons_append], ?_⟩
    rintro rfl
    exact absurd hc (by decide)
  have hopening (x y : List Char) : [' ', '{'] ++ x ≠ [' ', ':'] ++ y := by simp
  obtain ⟨hmap, hxy⟩ := bracketed_append_inj (g := id) hopening (by decide)
    (fun e he e' he' x y hx hy h => entryText_append_inj rfl (ha.keys e he) (hb.keys e' he')
      (ha.attributes e he) (hb.attributes e' he') hx hy h)
    (fun e he => hbrace (ha.keys e he)) (fun e he => hbrace (hb.keys e he)) h
  rw [List.map_id, List.map_id] at hmap
  refine ⟨?_, hxy⟩
  cases hea : a.attributes
  cases heb : b.attributes
  rw [hea, heb] at hmap
  cases hmap
  rfl

lemma plain_signature {op : Operation} (h : op.Plain) : (signature op).Plain := by
  rw [signature, Ty.plain_function]
  exact ⟨List.forall_mem_map.mpr h.operands, List.forall_mem_map.mpr h.results⟩

/-- **What stands behind the regions of an operation can be told.** -/
theorem tail_append_inj {n m : Names} {a b : Operation} (ha : a.Plain) (hb : b.Plain)
    {x y : List Char} (h : ((located n).tail a).toList ++ x = ((located m).tail b).toList ++ y) :
    a.attributes = b.attributes ∧ signature a = signature b ∧ a.location = b.location ∧ x = y := by
  rw [toList_tail, toList_tail] at h
  simp only [List.append_assoc, List.cons_append, List.nil_append] at h
  obtain ⟨hattributes, h⟩ := attributeChars_append_inj ha hb h
  obtain ⟨hsignature, h⟩ := Ty.tells_text _ _ _ _ (stops_cons (by decide) _)
    (stops_cons (by decide) _) (List.cons.inj h).2
  simp only [List.cons.injEq, true_and] at h
  obtain ⟨hlocation, h⟩ := Location.text_append_inj (fun s hs => (ha.location s hs).1)
    (fun s hs => (hb.location s hs).1) (Location.ends_cons (by decide) _)
    (Location.ends_cons (by decide) _) h
  exact ⟨hattributes, (plain_signature ha).eq_of_normal (plain_signature hb) hsignature, hlocation,
    (List.cons.inj h).2⟩

lemma exists_tail_eq_cons (n : Names) (op : Operation) :
    ∃ c r, ((located n).tail op).toList = ' ' :: c :: r ∧ c ∈ ['{', ':'] := by
  rw [toList_tail, attributeChars, bracketed]
  split
  · exact ⟨':', _, rfl, by decide⟩
  · exact ⟨'{', _, rfl, by decide⟩

/-! ### Labels -/

/-- The text of an argument with the given name and type. -/
def argumentChars (p : String × Ty) : List Char := p.1.toList ++ ':' :: ' ' :: p.2.text.toList

def argumentsChars (ps : List (String × Ty)) : List Char :=
  bracketed ['('] ')' (ps.map argumentChars)

lemma toList_labelText (n : Names) (index : ℕ) (b : Block) :
    ((located n).labelText index b).toList = '^' :: 'b' :: 'b' :: (Nat.toDigits 10 index ++
      (argumentsChars (b.arguments.map fun v => (n.name v, v.ty)) ++ [':'])) := by
  have hargument (v : Value) :
      ((located n).argumentText v).toList = argumentChars (n.name v, v.ty) := by
    rw [Session.argumentText, String.toList_append, String.toList_append, List.append_assoc]
    rfl
  have harguments : (if b.arguments.isEmpty then ""
        else "(" ++ Ty.commaList (b.arguments.map (located n).argumentText) ++ ")").toList =
      argumentsChars (b.arguments.map fun v => (n.name v, v.ty)) := by
    rw [argumentsChars, bracketed, List.isEmpty_map, List.isEmpty_map]
    split
    · rfl
    · have hmap : b.arguments.map (String.toList ∘ (located n).argumentText) =
          b.arguments.map (argumentChars ∘ fun v => (n.name v, v.ty)) :=
        List.map_congr_left fun v _ => hargument v
      rw [String.toList_append, String.toList_append, Ty.toList_commaList, List.map_map,
        List.map_map, hmap, List.append_assoc]
      rfl
  rw [Session.labelText]
  simp only [String.toList_append, toList_toString_nat, harguments, List.append_assoc]
  rfl

lemma argumentsChars_append_inj {ps qs : List (String × Ty)}
    (hps : ∀ p ∈ ps, IsValueName p.1 ∧ p.2.Plain) (hqs : ∀ q ∈ qs, IsValueName q.1 ∧ q.2.Plain)
    {x y : List Char} (h : argumentsChars ps ++ ':' :: x = argumentsChars qs ++ ':' :: y) :
    ps = qs ∧ x = y := by
  have hargument : ∀ p ∈ ps, ∀ q ∈ qs, Tells (p = q) (argumentChars p) (argumentChars q) := by
    intro p hp q hq
    refine ((tells_valueName (hps p hp).1 (hqs q hq).1).append (by decide) (by decide)
      ((Ty.tells_text p.2 q.2).append_left [':', ' '])).imp fun ⟨hname, htype⟩ => ?_
    exact Prod.ext hname ((hps p hp).2.eq_of_normal (hqs q hq).2 htype)
  have hclose {p : String × Ty} (hp : IsValueName p.1) :
      ∃ c r, argumentChars p = c :: r ∧ c ≠ ')' := by
    obtain ⟨w, hw, -⟩ := hp
    exact ⟨'%', _, by rw [argumentChars, hw, List.cons_append], by decide⟩
  have hopening (x y : List Char) : ['('] ++ x ≠ [':'] ++ y := by simp
  obtain ⟨hmap, hxy⟩ := bracketed_append_inj (g := id) hopening (by decide)
    (fun p hp q hq x y hx hy => hargument p hp q hq x y (hx.stops (by decide))
      (hy.stops (by decide)))
    (fun p hp => hclose (hps p hp).1) (fun q hq => hclose (hqs q hq).1) h
  rw [List.map_id, List.map_id] at hmap
  exact ⟨hmap, hxy⟩

/-- **The label of a block can be told from its text.** -/
theorem labelText_append_inj {n m : Names} (hn : n.Proper) (hm : m.Proper) {b c : Block}
    (hb : n.Covers b.arguments) (hc : m.Covers c.arguments)
    (hbPlain : ∀ v ∈ b.arguments, v.ty.Plain) (hcPlain : ∀ v ∈ c.arguments, v.ty.Plain) {i j : ℕ}
    {x y : List Char} (h : ((located n).labelText i b).toList ++ x =
      ((located m).labelText j c).toList ++ y) :
    i = j ∧ (b.arguments.map fun v => (n.name v, v.ty)) =
      (c.arguments.map fun v => (m.name v, v.ty)) ∧ x = y := by
  have hdigits (ps : List (String × Ty)) (x : List Char) :
      ∀ c ∈ (argumentsChars ps ++ ':' :: x).head?, c.isDigit = false := by
    unfold argumentsChars bracketed
    split <;> simp
  have hargument {n : Names} (hn : n.Proper) {vs : List Value} (hvs : n.Covers vs)
      (hplain : ∀ v ∈ vs, v.ty.Plain) :
      ∀ p ∈ vs.map fun v => (n.name v, v.ty), IsValueName p.1 ∧ p.2.Plain := by
    intro p hp
    obtain ⟨v, hv, rfl⟩ := List.mem_map.mp hp
    exact ⟨hn.isValueName hvs _ (List.mem_map_of_mem hv), hplain v hv⟩
  rw [toList_labelText, toList_labelText] at h
  simp only [List.cons_append, List.append_assoc, List.cons.injEq, true_and,
    List.nil_append] at h
  obtain ⟨hindex, h⟩ := toDigits_append_inj (hdigits _ x) (hdigits _ y) h
  exact ⟨hindex, argumentsChars_append_inj (hargument hn hb hbPlain) (hargument hm hc hcPlain) h⟩

end Print

end OpTree
