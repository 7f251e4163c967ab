import OpTree.Pipeline.Entry
import OpTree.Proofs.Splitting
import Mathlib.Data.Bool.AllAny
import Mathlib.Data.List.TakeWhile

/-!
The texts of a pipeline. An entry may be written in many ways: blanks may stand around it, in
front of its braces and inside them, a value may stand in quotes or bare, and the value `true` may
be left out. Reading any of these texts gives the entries back.
-/

namespace OpTree.Pipeline

open OpTree.Text

def Blanks (s : List Char) : Prop := ∀ c ∈ s, isBlank c = true

/-- A character that neither nests nor is a blank. -/
def isPlain (c : Char) : Bool := !isBracket c && !isBlank c

/-- An option can be written: it has a key without blanks, quotes, braces and equals signs, and a
value without quotes. -/
structure WritableOption (o : String × String) : Prop where
  key_ne : o.1 ≠ ""
  key_plain : ∀ c ∈ o.1.toList, isPlain c = true ∧ c ≠ '='
  value_free : '"' ∉ o.2.toList

/-- An entry can be written: it has a name without blanks, quotes, braces and commas, and all its
options can be written. -/
structure Entry.Writable (e : Entry) : Prop where
  name_ne : e.name ≠ ""
  name_plain : ∀ c ∈ e.name.toList, isPlain c = true ∧ c ≠ ','
  options : ∀ o ∈ e.options, WritableOption o

/-! ### The texts -/

inductive OptionText : String × String → List Char → Prop
  | quoted (k v : String) : OptionText (k, v) (k.toList ++ '=' :: '"' :: (v.toList ++ ['"']))
  /-- A value without blanks and braces needs no quotes. -/
  | bare (k v : String) (h : ∀ c ∈ v.toList, isBlank c = false ∧ c ≠ '{' ∧ c ≠ '}') :
    OptionText (k, v) (k.toList ++ '=' :: v.toList)
  | flag (k : String) : OptionText (k, "true") k.toList

/-- The texts between braces: options with blanks between them and perhaps around them. -/
inductive OptionsText : List (String × String) → List Char → Prop
  | nil {b : List Char} (hb : Blanks b) : OptionsText [] b
  | cons {b t s : List Char} {o : String × String} {os : List (String × String)} (hb : Blanks b)
    (ht : OptionText o t) (hs : OptionsText os s)
    (gap : os ≠ [] → ∃ c ∈ s.head?, isBlank c = true) : OptionsText (o :: os) (b ++ (t ++ s))

/-- The texts of an entry, with blanks around it. -/
inductive EntryText : Entry → List Char → Prop
  /-- Without options there need be no braces. -/
  | bare {b d : List Char} (name : String) (hb : Blanks b) (hd : Blanks d) :
    EntryText ⟨name, []⟩ (b ++ (name.toList ++ d))
  | braced {b g s d : List Char} {os : List (String × String)} (name : String) (hb : Blanks b)
    (hg : Blanks g) (hs : OptionsText os s) (hd : Blanks d) :
    EntryText ⟨name, os⟩ (b ++ (name.toList ++ (g ++ '{' :: (s ++ ['}'])) ++ d))

/-- The texts of a pipeline: entries joined by commas. -/
inductive PipelineText : List Entry → List Char → Prop
  | single {e : Entry} {t : List Char} (ht : EntryText e t) : PipelineText [e] t
  | cons {e : Entry} {es : List Entry} {t s : List Char} (ht : EntryText e t)
    (hs : PipelineText es s) : PipelineText (e :: es) (t ++ ',' :: s)

/-! ### Blanks -/

lemma isPlain_iff {c : Char} : isPlain c = true ↔ isBracket c = false ∧ isBlank c = false := by
  simp [isPlain]

lemma ne_of_isPlain {c d : Char} (hc : isPlain c = true) (hd : isPlain d = false) : c ≠ d := by
  rintro rfl
  rw [hc] at hd
  cases hd

lemma not_isBracket_of_isBlank {c : Char} (h : isBlank c = true) : isBracket c = false := by
  by_contra hb
  simp only [isBracket, Bool.not_eq_false, Bool.or_eq_true, beq_iff_eq] at hb
  rcases hb with (rfl | rfl) | rfl <;> exact absurd h (by decide)

lemma dropWhile_isBlank_append {b : List Char} (hb : Blanks b) (s : List Char) :
    (b ++ s).dropWhile isBlank = s.dropWhile isBlank := by
  induction b with
  | nil => rfl
  | cons c b ih =>
    rw [List.cons_append, List.dropWhile_cons, if_pos (hb c (by simp))]
    exact ih fun d hd => hb d (by simp [hd])

lemma dropWhile_isBlank_of_head? {s : List Char} (h : ∀ c ∈ s.head?, isBlank c = false) :
    s.dropWhile isBlank = s := by
  cases s with
  | nil => rfl
  | cons c s =>
    have hc : isBlank c = false := h c (by simp)
    rw [List.dropWhile_cons, hc, if_neg (by simp)]

lemma trim_append {b s b' : List Char} (hb : Blanks b) (hb' : Blanks b') (hs : s ≠ [])
    (hfirst : ∀ c ∈ s.head?, isBlank c = false) (hlast : ∀ c ∈ s.getLast?, isBlank c = false) :
    trim (b ++ (s ++ b')) = s := by
  have hfront : (b ++ (s ++ b')).dropWhile isBlank = s ++ b' := by
    rw [dropWhile_isBlank_append hb, dropWhile_isBlank_of_head?]
    intro c hc
    refine hfirst c ?_
    cases s with
    | nil => exact absurd rfl hs
    | cons d s => simpa using hc
  have hrev : Blanks b'.reverse := fun c hc => hb' c (by simpa using hc)
  rw [trim, hfront, List.reverse_append, dropWhile_isBlank_append hrev,
    dropWhile_isBlank_of_head? (by simpa using hlast), List.reverse_reverse]

/-! ### Nesting of the texts -/

section Nesting

variable {isSeparator : Char → Bool} {n : Nesting}

lemma pass?_blanks {b : List Char} (hb : Blanks b)
    (hsep : n = .top → ∀ c, isBlank c = true → isSeparator c = false) :
    n.pass? isSeparator b = some n :=
  Nesting.pass?_of_not_isBracket (fun c hc => not_isBracket_of_isBlank (hb c hc))
    fun hn c hc => hsep hn c (hb c hc)

/-- An option does not change the nesting, and outside of quotes it holds no blanks. -/
lemma OptionText.pass? {o : String × String} {t : List Char} (ht : OptionText o t)
    (ho : WritableOption o) (hn : n.quoted = false)
    (hsep : n = .top → ∀ c, isBlank c = false → isSeparator c = false)
    (hquote : isSeparator '"' = false) : n.pass? isSeparator t = some n := by
  have hkey : n.pass? isSeparator o.1.toList = some n := by
    refine Nesting.pass?_of_not_isBracket (fun c hc => ?_) fun h c hc => hsep h c ?_
    · exact (isPlain_iff.mp (ho.key_plain c hc).1).1
    · exact (isPlain_iff.mp (ho.key_plain c hc).1).2
  have hequals : n.step? '=' = some n := Nesting.step?_of_not_isBracket (by decide)
  have hequals' : n = .top → isSeparator '=' = false := fun h => hsep h '=' (by decide)
  cases ht with
  | quoted k v =>
    rw [Nesting.pass?_append_of_eq hkey, Nesting.pass?_cons _ hequals', hequals, Option.bind_some,
      Nesting.pass?_quoted hn ho.value_free hquote]
  | bare k v h =>
    rw [Nesting.pass?_append_of_eq hkey, Nesting.pass?_cons _ hequals', hequals, Option.bind_some]
    refine Nesting.pass?_of_not_isBracket (fun c hc => ?_) fun htop c hc => hsep htop c (h c hc).1
    have hne : c ≠ '"' := fun e => ho.value_free (e ▸ hc)
    simp [isBracket, hne, (h c hc).2]
  | flag k => exact hkey

lemma OptionsText.pass? {os : List (String × String)} {s : List Char} (hs : OptionsText os s)
    (hos : ∀ o ∈ os, WritableOption o) (hn : n.quoted = false) (htop : n ≠ .top)
    (hquote : isSeparator '"' = false) : n.pass? isSeparator s = some n := by
  induction hs with
  | nil hb => exact pass?_blanks hb fun h => absurd h htop
  | cons hb ht _ _ ih =>
    rw [Nesting.pass?_append_of_eq (pass?_blanks hb fun h => absurd h htop),
      Nesting.pass?_append_of_eq (ht.pass? (hos _ (by simp)) hn (fun h => absurd h htop) hquote)]
    exact ih fun o ho => hos o (by simp [ho])

end Nesting

lemma EntryText.pass? {e : Entry} {t : List Char} (ht : EntryText e t) (he : e.Writable) :
    Nesting.top.pass? (· == ',') t = some .top := by
  have hblank : ∀ c, isBlank c = true → (c == ',') = false := by
    intro c hc
    rw [beq_eq_false_iff_ne]
    rintro rfl
    exact absurd hc (by decide)
  have hname : Nesting.top.pass? (· == ',') e.name.toList = some .top := by
    refine Nesting.pass?_of_not_isBracket (fun c hc => ?_) fun _ c hc => ?_
    · exact (isPlain_iff.mp (he.name_plain c hc).1).1
    · exact beq_eq_false_iff_ne.mpr (he.name_plain c hc).2
  cases ht with
  | bare name hb hd =>
    rw [Nesting.pass?_append_of_eq (pass?_blanks hb fun _ => hblank),
      Nesting.pass?_append_of_eq hname, pass?_blanks hd fun _ => hblank]
  | @braced b g s d os name hb hg hs hd =>
    have hin : (⟨false, 1⟩ : Nesting).pass? (· == ',') s = some ⟨false, 1⟩ :=
      hs.pass? he.options rfl (by decide) (by decide)
    have hbraces : Nesting.top.pass? (· == ',') ('{' :: (s ++ ['}'])) = some .top := by
      rw [Nesting.pass?_cons _ fun _ => by decide]
      change (⟨false, 1⟩ : Nesting).pass? (· == ',') (s ++ ['}']) = some .top
      rw [Nesting.pass?_append_of_eq hin]
      rfl
    rw [Nesting.pass?_append_of_eq (pass?_blanks hb fun _ => hblank), List.append_assoc,
      Nesting.pass?_append_of_eq hname, List.append_assoc,
      Nesting.pass?_append_of_eq (pass?_blanks hg fun _ => hblank),
      Nesting.pass?_append_of_eq hbraces, pass?_blanks hd fun _ => hblank]

/-! ### Reading options -/

lemma splitOnce_append {c : Char} {s : List Char} (hs : c ∉ s) (r : List Char) :
    splitOnce c (s ++ c :: r) = some (s, r) := by
  have hne : ∀ d ∈ s, decide (d ≠ c) = true := fun d hd => decide_eq_true fun e => hs (e ▸ hd)
  have htake : (s ++ c :: r).takeWhile (· ≠ c) = s := by
    rw [List.takeWhile_append_of_pos hne, List.takeWhile_cons_of_neg (by simp), List.append_nil]
  have hdrop : (s ++ c :: r).dropWhile (· ≠ c) = c :: r := by
    rw [List.dropWhile_append_of_pos hne, List.dropWhile_cons_of_neg (by simp)]
  rw [splitOnce, hdrop, htake]

lemma splitOnce_eq_none {c : Char} {s : List Char} (hs : c ∉ s) : splitOnce c s = none := by
  have hdrop : s.dropWhile (· ≠ c) = [] := by
    rw [List.dropWhile_eq_nil_iff]
    exact fun d hd => decide_eq_true fun e => hs (e ▸ hd)
  rw [splitOnce, hdrop]

lemma unquote_quoted (v : List Char) : unquote ('"' :: (v ++ ['"'])) = v := by
  simp [unquote]

lemma unquote_of_free {v : List Char} (h : '"' ∉ v) : unquote v = v := by
  cases v with
  | nil => rfl
  | cons c v =>
    have hc : c ≠ '"' := fun e => h (by simp [e])
    unfold unquote
    split
    · rename_i heq
      exact absurd (List.cons.inj heq).1 hc
    · rfl

lemma WritableOption.key_toList_ne {o : String × String} (ho : WritableOption o) :
    o.1.toList ≠ [] := fun h => ho.key_ne (String.toList_eq_nil_iff.mp h)

lemma parseOption_text {o : String × String} {t : List Char} (ht : OptionText o t)
    (ho : WritableOption o) : parseOption t = .ok o := by
  have hkey : '=' ∉ o.1.toList := fun h => (ho.key_plain '=' h).2 rfl
  have hne := ho.key_toList_ne
  cases ht with
  | quoted k v =>
    rw [parseOption, splitOnce_append hkey]
    simp only [unquote_quoted, if_neg hne, String.ofList_toList]
  | bare k v _ =>
    rw [parseOption, splitOnce_append hkey]
    simp only [unquote_of_free ho.value_free, if_neg hne, String.ofList_toList]
  | flag k =>
    rw [parseOption, splitOnce_eq_none hkey]
    simp only [if_neg hne, String.ofList_toList]

lemma OptionText.ne_nil {o : String × String} {t : List Char} (ht : OptionText o t)
    (ho : WritableOption o) : t ≠ [] := by
  have hne := ho.key_toList_ne
  cases ht with
  | quoted k v => simp
  | bare k v _ => simp
  | flag k => exact hne

/-- The options that are read off pieces between blanks. -/
def readPieces (ps : List (List Char)) : Except Malformed (List (String × String)) :=
  (ps.filter (· ≠ [])).mapM parseOption

lemma readPieces_cons {p : List Char} (hp : p ≠ []) {o : String × String}
    (ho : parseOption p = .ok o) {ps : List (List Char)} {os : List (String × String)}
    (hos : readPieces ps = .ok os) : readPieces (p :: ps) = .ok (o :: os) := by
  rw [readPieces] at hos
  rw [readPieces, List.filter_cons_of_pos (by simpa using hp), List.mapM_cons, ho, hos]
  rfl

lemma splitTop_blanks_append {b : List Char} (hb : Blanks b) {s : List Char}
    {ps : List (List Char)} {os : List (String × String)}
    (hs : splitTop isBlank s = .ok ps) (hps : readPieces ps = .ok os) :
    ∃ qs, splitTop isBlank (b ++ s) = .ok qs ∧ readPieces qs = .ok os := by
  induction b with
  | nil => exact ⟨ps, hs, hps⟩
  | cons c b ih =>
    obtain ⟨qs, hqs, hread⟩ := ih fun d hd => hb d (by simp [hd])
    refine ⟨[] :: qs, ?_, hread⟩
    have hnone : Nesting.top.pass? isBlank [] = some .top := rfl
    have hcons := splitTop_append_cons hnone (hb c (by simp)) (b ++ s)
    rw [List.nil_append, hqs] at hcons
    exact hcons

lemma OptionsText.blanks {s : List Char} (hs : OptionsText [] s) : Blanks s := by
  cases hs with
  | nil hb => exact hb

lemma splitTop_optionsText {os : List (String × String)} {s : List Char}
    (hs : OptionsText os s) (hos : ∀ o ∈ os, WritableOption o) :
    ∃ ps, splitTop isBlank s = .ok ps ∧ readPieces ps = .ok os := by
  induction hs with
  | nil hb =>
    have hempty : splitTop isBlank [] = .ok [[]] := rfl
    have h := splitTop_blanks_append hb hempty rfl
    rwa [List.append_nil] at h
  | @cons b t s o os hb ht hs gap ih =>
    have ho := hos o (by simp)
    have hne := ht.ne_nil ho
    have hparse := parseOption_text ht ho
    have hpass : Nesting.top.pass? isBlank t = some .top :=
      ht.pass? ho rfl (fun _ _ h => h) (by decide)
    obtain ⟨ps, hps, hread⟩ := ih fun o ho => hos o (by simp [ho])
    -- behind the option either the text ends or a blank stands
    have hpieces : ∃ qs, splitTop isBlank (t ++ s) = .ok qs ∧ readPieces qs = .ok (o :: os) := by
      cases s with
      | nil =>
        have hnil : os = [] := by
          by_contra h
          obtain ⟨c, hc, -⟩ := gap h
          cases hc
        subst hnil
        rw [List.append_nil, splitTop_single hpass]
        exact ⟨[t], rfl, readPieces_cons hne hparse rfl⟩
      | cons c s =>
        have hc : isBlank c = true := by
          by_cases h : os = []
          · subst h
            exact hs.blanks c (by simp)
          · obtain ⟨d, hd, hblank⟩ := gap h
            obtain rfl : c = d := by simpa using hd
            exact hblank
        rw [splitTop, splitWithin, if_pos ⟨rfl, hc⟩, ← splitTop] at hps
        rw [splitTop_append_cons hpass hc]
        cases hs' : splitTop isBlank s with
        | error e =>
          rw [hs'] at hps
          cases hps
        | ok qs =>
          rw [hs'] at hps
          obtain rfl : [] :: qs = ps := Except.ok.inj hps
          exact ⟨t :: qs, rfl, readPieces_cons hne hparse hread⟩
    obtain ⟨qs, hqs, hreadq⟩ := hpieces
    exact splitTop_blanks_append hb hqs hreadq

lemma parseOptions_text {os : List (String × String)} {s : List Char} (hs : OptionsText os s)
    (hos : ∀ o ∈ os, WritableOption o) : parseOptions s = .ok os := by
  obtain ⟨ps, hps, hread⟩ := splitTop_optionsText hs hos
  rw [parseOptions, splitBalanced, hps]
  exact hread

/-! ### Reading entries -/

section Entry

variable {e : Entry} (he : e.Writable)

include he

lemma Entry.Writable.name_toList_ne : e.name.toList ≠ [] := fun h =>
  he.name_ne (String.toList_eq_nil_iff.mp h)

lemma Entry.Writable.not_isBlank {c : Char} (hc : c ∈ e.name.toList) : isBlank c = false :=
  (isPlain_iff.mp (he.name_plain c hc).1).2

lemma Entry.Writable.brace_notMem : '{' ∉ e.name.toList := fun h =>
  ne_of_isPlain (he.name_plain _ h).1 (by decide) rfl

lemma checkName_name : checkName e.name.toList = .ok e.name := by
  have hblank : ¬ e.name.toList.any isBlank = true := by
    rw [List.any_eq_true]
    rintro ⟨c, hc, hb⟩
    rw [he.not_isBlank hc] at hb
    cases hb
  rw [checkName, if_neg (not_or.mpr ⟨he.name_toList_ne, hblank⟩), String.ofList_toList]

lemma head?_name_append (s : List Char) :
    ∀ c ∈ (e.name.toList ++ s).head?, isBlank c = false := by
  have hne := he.name_toList_ne
  intro c hc
  refine he.not_isBlank ?_
  cases hname : e.name.toList with
  | nil => exact absurd hname hne
  | cons d r =>
    rw [hname] at hc
    obtain rfl : d = c := by simpa using hc
    simp

lemma getLast?_name : ∀ c ∈ e.name.toList.getLast?, isBlank c = false := fun _ hc =>
  he.not_isBlank (List.mem_of_getLast? hc)

lemma parseEntry_text {t : List Char} (ht : EntryText e t) : parseEntry (trim t) = .ok e := by
  have hne := he.name_toList_ne
  have hfirst := head?_name_append he
  cases ht with
  | bare name hb hd =>
    have htrim := trim_append hb hd hne (by simpa using hfirst []) (getLast?_name he)
    rw [htrim, parseEntry, splitOnce_eq_none he.brace_notMem]
    change (do
      let name ← checkName name.toList
      return ({ name } : Entry)) = _
    rw [checkName_name he]
    rfl
  | @braced b g s d os name hb hg hs hd =>
    have htrim := trim_append hb hd (by simp) (hfirst (g ++ '{' :: (s ++ ['}'])))
      (by simp [List.getLast?_append, List.getLast?_cons]; decide)
    have hname : trim (name.toList ++ g) = name.toList := by
      have h := trim_append (b := []) (by simp [Blanks]) hg hne (by simpa using hfirst [])
        (getLast?_name he)
      rwa [List.nil_append] at h
    have hbrace : '{' ∉ name.toList ++ g := by
      rw [List.mem_append]
      rintro (h | h)
      · exact he.brace_notMem h
      · exact absurd (hg _ h) (by decide)
    have hend : (s ++ ['}']).getLast? = some '}' := List.getLast?_concat
    rw [htrim, parseEntry, ← List.append_assoc, splitOnce_append hbrace]
    simp only [hend, ne_eq, not_true_eq_false, if_false, List.dropLast_concat, hname]
    change (do
      let options ← parseOptions s
      let name ← checkName name.toList
      return (⟨name, options⟩ : Entry)) = _
    rw [parseOptions_text hs he.options, checkName_name he]
    rfl

lemma EntryText.isBlankText {t : List Char} (ht : EntryText e t) : isBlankText t = false := by
  have hne := he.name_toList_ne
  obtain ⟨c, hc⟩ := List.exists_mem_of_ne_nil _ hne
  have hmem : c ∈ t := by
    cases ht with
    | bare name hb hd => simp [hc]
    | braced name hb hg hs hd => simp [hc]
  rw [← Bool.not_eq_true, Text.isBlankText, List.all_eq_true]
  intro hall
  have hblank := hall c hmem
  rw [he.not_isBlank hc] at hblank
  cases hblank

end Entry

/-! ### Reading pipelines -/

/-- The pieces between the commas are texts of the entries. -/
lemma splitTop_pipelineText {es : List Entry} {t : List Char} (ht : PipelineText es t)
    (hes : ∀ e ∈ es, e.Writable) :
    ∃ ps, splitTop (· == ',') t = .ok ps ∧ List.Forall₂ EntryText es ps := by
  induction ht with
  | @single e t ht => exact ⟨[t], splitTop_single (ht.pass? (hes e (by simp))), .cons ht .nil⟩
  | @cons e es t s ht _ ih =>
    obtain ⟨ps, hps, hall⟩ := ih fun e he => hes e (by simp [he])
    refine ⟨t :: ps, ?_, .cons ht hall⟩
    rw [splitTop_append_cons (ht.pass? (hes e (by simp))) (by decide), hps]
    rfl

lemma mapM_parseEntry {es : List Entry} {ps : List (List Char)}
    (h : List.Forall₂ EntryText es ps) (hes : ∀ e ∈ es, e.Writable) :
    ps.mapM (fun p => parseEntry (trim p)) = .ok es := by
  induction h with
  | nil => rfl
  | @cons e p es ps ht _ ih =>
    rw [List.mapM_cons, parseEntry_text (hes e (by simp)) ht, ih fun e he => hes e (by simp [he])]
    rfl

lemma exists_entryText_of_mem {es : List Entry} {ps : List (List Char)}
    (h : List.Forall₂ EntryText es ps) {p : List Char} (hp : p ∈ ps) :
    ∃ e ∈ es, EntryText e p := by
  induction h with
  | nil => cases hp
  | @cons e q es ps ht _ ih =>
    rcases List.mem_cons.mp hp with rfl | hp
    · exact ⟨e, by simp, ht⟩
    · obtain ⟨e', he', htext⟩ := ih hp
      exact ⟨e', by simp [he'], htext⟩

lemma splitEntries_text {es : List Entry} {t : List Char} (ht : PipelineText es t)
    (hes : ∀ e ∈ es, e.Writable) :
    ∃ ps, splitEntries t = .ok ps ∧ List.Forall₂ EntryText es ps := by
  obtain ⟨ps, hps, hall⟩ := splitTop_pipelineText ht hes
  have hblank : ¬ ps.any isBlankText = true := by
    rw [List.any_eq_true]
    rintro ⟨p, hp, hblank⟩
    obtain ⟨e, he, htext⟩ := exists_entryText_of_mem hall hp
    rw [htext.isBlankText (hes e he)] at hblank
    cases hblank
  refine ⟨ps, ?_, hall⟩
  rw [splitEntries, splitBalanced, hps]
  change (do
    if ps.any isBlankText then throw (Malformed.emptyEntry (.ofList t))
    return ps) = _
  rw [if_neg hblank]
  rfl

lemma PipelineText.isBlankText {es : List Entry} {t : List Char} (ht : PipelineText es t)
    (hes : ∀ e ∈ es, e.Writable) : isBlankText t = false := by
  cases ht with
  | @single e t ht => exact ht.isBlankText (hes e (by simp))
  | @cons e es t s ht hs =>
    have h := ht.isBlankText (hes e (by simp))
    rw [Text.isBlankText] at h ⊢
    rw [List.all_append, h, Bool.false_and]

lemma parseEntries_text {es : List Entry} {t : List Char} (ht : PipelineText es t)
    (hes : ∀ e ∈ es, e.Writable) : parseEntries t = .ok es := by
  obtain ⟨ps, hps, hall⟩ := splitEntries_text ht hes
  rw [parseEntries, ht.isBlankText hes]
  change (do
    let pieces ← splitEntries t
    pieces.mapM fun p => parseEntry (trim p)) = _
  rw [hps]
  exact mapM_parseEntry hall hes

/-! ### Writing -/

lemma exists_optionsText (os : List (String × String)) : ∃ s, OptionsText os (' ' :: s) := by
  have hblank : Blanks [' '] := by
    intro c hc
    obtain rfl := List.mem_singleton.mp hc
    decide
  induction os with
  | nil => exact ⟨[], .nil hblank⟩
  | cons o os ih =>
    obtain ⟨s, hs⟩ := ih
    exact ⟨_, .cons hblank (.quoted o.1 o.2) hs fun _ => ⟨' ', by simp, by decide⟩⟩

lemma exists_entryText (e : Entry) : ∃ t, EntryText e t := by
  obtain ⟨s, hs⟩ := exists_optionsText e.options
  have hblanks : Blanks [] := by simp [Blanks]
  exact ⟨_, .braced e.name hblanks hblanks hs hblanks⟩

lemma exists_pipelineText {es : List Entry} (hne : es ≠ []) : ∃ t, PipelineText es t := by
  induction es with
  | nil => exact absurd rfl hne
  | cons e es ih =>
    obtain ⟨t, ht⟩ := exists_entryText e
    by_cases h : es = []
    · subst h
      exact ⟨t, .single ht⟩
    · obtain ⟨s, hs⟩ := ih h
      exact ⟨_, .cons ht hs⟩

/-- **A pipeline is read back from each of its texts**, whatever blanks are put in and however
options are spelled, and every pipeline that can be written has a text. -/
theorem parse_pipelineText {es : List Entry} (hne : es ≠ []) (hes : ∀ e ∈ es, e.Writable) :
    (∃ t, PipelineText es t) ∧
      ∀ t, PipelineText es t → Entry.parse (String.ofList t) = .ok es := by
  refine ⟨exists_pipelineText hne, fun t ht => ?_⟩
  rw [Entry.parse, String.toList_ofList, parseEntries_text ht hes]
  rfl

/-- Two entries, one with a value that has to stand in quotes, one that holds an equals sign, and
one that is left out. -/
def crowded : List Entry :=
  [⟨"dump", [("label", "a, b\x7d"), ("deep", "x=y"), ("verbose", "true")]⟩, ⟨"strip", []⟩]

def crowdedText : String :=
  "\u2003dump\t\x7b label=\"a, b\x7d\"  deep=x=y verbose\u00a0\x7d ,strip\n"

theorem parse_pipelineText_crowded :
    crowded ≠ [] ∧ (∀ e ∈ crowded, e.Writable) ∧ PipelineText crowded crowdedText.toList ∧
      Entry.parse (String.ofList crowdedText.toList) = .ok crowded := by
  have hes : ∀ e ∈ crowded, e.Writable := by
    have hoption : ∀ o ∈ [("label", "a, b\x7d"), ("deep", "x=y"), ("verbose", "true")],
        WritableOption o := by
      intro o ho
      simp only [List.mem_cons, List.not_mem_nil, or_false] at ho
      rcases ho with rfl | rfl | rfl <;>
        exact ⟨by decide, List.all_iff_forall_prop.mp (by decide), by decide⟩
    intro e he
    simp only [crowded, List.mem_cons, List.not_mem_nil, or_false] at he
    rcases he with rfl | rfl
    · exact ⟨by decide, List.all_iff_forall_prop.mp (by decide), hoption⟩
    · exact ⟨by decide, List.all_iff_forall_prop.mp (by decide), by simp⟩
  have hoptions : OptionsText [("label", "a, b\x7d"), ("deep", "x=y"), ("verbose", "true")]
      " label=\"a, b\x7d\"  deep=x=y verbose\u00a0".toList := by
    have hflag := OptionsText.cons (b := " ".toList) (List.all_iff_forall_prop.mp (by decide))
      (.flag "verbose") (.nil (b := "\u00a0".toList) (List.all_iff_forall_prop.mp (by decide)))
      (by simp)
    have hbare := OptionsText.cons (b := "  ".toList) (List.all_iff_forall_prop.mp (by decide))
      (.bare "deep" "x=y" (List.all_iff_forall_prop.mp (by decide))) hflag
      fun _ => ⟨' ', rfl, by decide⟩
    have hall := OptionsText.cons (b := " ".toList) (List.all_iff_forall_prop.mp (by decide))
      (.quoted "label" "a, b\x7d") hbare fun _ => ⟨' ', rfl, by decide⟩
    refine cast (congrArg (OptionsText _) ?_) hall
    decide +kernel
  have ht : PipelineText crowded crowdedText.toList := by
    have hdump := EntryText.braced (b := "\u2003".toList) (g := "\t".toList) (d := " ".toList)
      "dump" (List.all_iff_forall_prop.mp (by decide)) (List.all_iff_forall_prop.mp (by decide))
      hoptions (List.all_iff_forall_prop.mp (by decide))
    have hstrip := EntryText.bare (b := []) (d := "\n".toList) "strip" (by simp [Blanks])
      (List.all_iff_forall_prop.mp (by decide))
    refine cast (congrArg (PipelineText _) ?_) (PipelineText.cons hdump (.single hstrip))
    decide +kernel
  exact ⟨by decide, hes, ht, (parse_pipelineText (by decide) hes).2 _ ht⟩

end OpTree.Pipeline
