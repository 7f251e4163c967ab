import OpTree.Proofs.Pieces
import OpTree.Proofs.PipelineText
import OpTree.Proofs.Results

/-!
The grammar of pipelines. A text is a pipeline if it is blank, or if it is balanced and each piece
between its commas is an entry: a name, or a name and a balanced text in braces. Reading succeeds
on these texts and on no others, and what it gives can be said piece by piece.
-/

namespace OpTree.Pipeline

open OpTree.Text

/-! ### The grammar -/

def Solid (s : List Char) : Prop := ∀ c ∈ s, isBlank c = false

/-- What may stand in front of the braces of an entry, and between them. -/
structure Braceable (n i : List Char) : Prop where
  name_free : '{' ∉ n
  name_ne : trim n ≠ []
  name_solid : Solid (trim n)
  balanced : isBalanced i = true
  /-- No option begins with its equals sign. -/
  named : ∀ w ∈ pieces isBlank i, w.head? ≠ some '='

/-- The texts of entries, without the blanks around them. -/
def IsEntry (s : List Char) : Prop :=
  Solid s ∧ '{' ∉ s ∨ ∃ n i, s = n ++ '{' :: (i ++ ['}']) ∧ Braceable n i

/-- The texts of pipelines. -/
def Grammatical (t : List Char) : Prop :=
  isBlankText t = true ∨ isBalanced t = true ∧
    ∀ p ∈ pieces (· == ',') t, isBlankText p = false ∧ IsEntry (trim p)

/-- What a word between braces says: the key is what stands in front of its first equals sign. -/
inductive ReadsOption : List Char → String × String → Prop
  | flag {w : List Char} (hw : '=' ∉ w) : ReadsOption w (.ofList w, "true")
  | quoted {k v : List Char} (hk : '=' ∉ k) :
    ReadsOption (k ++ '=' :: '"' :: (v ++ ['"'])) (.ofList k, .ofList v)
  | bare {k v : List Char} (hk : '=' ∉ k) (hv : ∀ u, v ≠ '"' :: (u ++ ['"'])) :
    ReadsOption (k ++ '=' :: v) (.ofList k, .ofList v)

/-- What an entry says: there is an option for each word between its braces. -/
inductive ReadsEntry : List Char → Entry → Prop
  | name {s : List Char} (hs : '{' ∉ s) : ReadsEntry s ⟨.ofList s, []⟩
  | braced {n i : List Char} {os : List (String × String)} (hn : '{' ∉ n)
    (hos : List.Forall₂ ReadsOption ((pieces isBlank i).filter (· ≠ [])) os) :
    ReadsEntry (n ++ '{' :: (i ++ ['}'])) ⟨.ofList (trim n), os⟩

/-- What a pipeline says: there is an entry for each piece between its commas. -/
inductive ReadsPipeline : List Char → List Entry → Prop
  | blank {t : List Char} (ht : isBlankText t = true) : ReadsPipeline t []
  | entries {t : List Char} {es : List Entry} (ht : isBlankText t = false)
    (hes : List.Forall₂ (fun p e => ReadsEntry (trim p) e) (pieces (· == ',') t) es) :
    ReadsPipeline t es

/-! ### Results -/

lemma exists_forall₂ {α β : Type} {R : α → β → Prop} {l : List α} (h : ∀ x ∈ l, ∃ y, R x y) :
    ∃ ys, List.Forall₂ R l ys := by
  induction l with
  | nil => exact ⟨[], .nil⟩
  | cons x l ih =>
    obtain ⟨y, hy⟩ := h x (by simp)
    obtain ⟨ys, hys⟩ := ih fun z hz => h z (by simp [hz])
    exact ⟨y :: ys, .cons hy hys⟩

/-! ### Options -/

lemma unquote_of_not_quoted {v : List Char} (h : ∀ u, v ≠ '"' :: (u ++ ['"'])) :
    unquote v = v := by
  unfold unquote
  split
  · rename_i r
    split
    · rename_i hlast
      exact absurd (congrArg _ (List.dropLast_append_getLast? _ hlast).symm) (h r.dropLast)
    · rfl
  · rfl

lemma exists_readsOption (w : List Char) : ∃ o, ReadsOption w o := by
  by_cases hw : '=' ∈ w
  · obtain ⟨k, v, rfl, hk⟩ := List.eq_append_cons_of_mem hw
    by_cases hv : ∃ u, v = '"' :: (u ++ ['"'])
    · obtain ⟨u, rfl⟩ := hv
      exact ⟨_, .quoted hk⟩
    · exact ⟨_, .bare hk fun u hu => hv ⟨u, hu⟩⟩
  · exact ⟨_, .flag hw⟩

lemma parseOption_of_reads {w : List Char} {o : String × String} (h : ReadsOption w o)
    (hne : w ≠ []) (hhead : w.head? ≠ some '=') : parseOption w = .ok o := by
  have hkey {k v : List Char} (hk : (k ++ '=' :: v).head? ≠ some '=') : k ≠ [] := by
    rintro rfl
    exact hk rfl
  cases h with
  | flag hw =>
    rw [parseOption, splitOnce_eq_none hw]
    simp only [if_neg hne]
    rfl
  | quoted hk =>
    rw [parseOption, splitOnce_append hk]
    simp only [unquote_quoted, if_neg (hkey hhead)]
  | bare hk hv =>
    rw [parseOption, splitOnce_append hk]
    simp only [unquote_of_not_quoted hv, if_neg (hkey hhead)]

/-- A word is an option unless it begins with its equals sign. -/
lemma parseOption_eq_ok_iff {w : List Char} {o : String × String} :
    parseOption w = .ok o ↔ (w ≠ [] ∧ w.head? ≠ some '=') ∧ ReadsOption w o := by
  refine ⟨fun h => ?_, fun h => parseOption_of_reads h.2 h.1.1 h.1.2⟩
  have hne : w ≠ [] := by
    rintro rfl
    cases h
  have hhead : w.head? ≠ some '=' := by
    intro hw
    obtain ⟨v, rfl⟩ := List.head?_eq_some_iff.mp hw
    cases h
  obtain ⟨o', ho'⟩ := exists_readsOption w
  have heq := (parseOption_of_reads ho' hne hhead).symm.trans h
  exact ⟨⟨hne, hhead⟩, Except.ok.inj heq ▸ ho'⟩

lemma splitBalanced_eq_ok_iff {isSeparator : Char → Bool}
    (hsep : ∀ c, isSeparator c = true → isBracket c = false) {s : List Char}
    {ps : List (List Char)} :
    splitBalanced isSeparator s = .ok ps ↔ isBalanced s = true ∧ ps = pieces isSeparator s := by
  rw [← splitTop_eq_ok_iff hsep]
  exact mapError_eq_ok_iff

lemma parseOptions_eq_ok_iff {i : List Char} {os : List (String × String)} :
    parseOptions i = .ok os ↔ isBalanced i = true ∧ (∀ w ∈ pieces isBlank i, w.head? ≠ some '=') ∧
      List.Forall₂ ReadsOption ((pieces isBlank i).filter (· ≠ [])) os := by
  have hwords : (∀ w ∈ (pieces isBlank i).filter (· ≠ []), w ≠ [] ∧ w.head? ≠ some '=') ↔
      ∀ w ∈ pieces isBlank i, w.head? ≠ some '=' := by
    simp only [List.mem_filter, decide_eq_true_eq]
    refine ⟨fun h w hw hhead => (h w ⟨hw, ?_⟩).2 hhead, fun h w hw => ⟨hw.2, h w hw.1⟩⟩
    rintro rfl
    cases hhead
  have hread : ((pieces isBlank i).filter (· ≠ [])).mapM parseOption = .ok os ↔
      (∀ w ∈ pieces isBlank i, w.head? ≠ some '=') ∧
        List.Forall₂ ReadsOption ((pieces isBlank i).filter (· ≠ [])) os := by
    rw [mapM_eq_ok_iff, ← hwords, ← List.forall₂_and_left]
    simp only [parseOption_eq_ok_iff]
  rw [← hread, parseOptions, bind_eq_ok_iff]
  simp only [splitBalanced_eq_ok_iff fun _ => not_isBracket_of_isBlank]
  constructor
  · rintro ⟨_, ⟨hbalanced, rfl⟩, hos⟩
    exact ⟨hbalanced, hos⟩
  · rintro ⟨hbalanced, hos⟩
    exact ⟨_, ⟨hbalanced, rfl⟩, hos⟩

/-! ### Entries -/

lemma checkName_eq_ok_iff {n : List Char} {name : String} :
    checkName n = .ok name ↔ n ≠ [] ∧ Solid n ∧ name = .ofList n := by
  have hsolid : n.any isBlank = true ↔ ¬ Solid n := by
    simp [Solid]
  rw [checkName]
  by_cases hn : n = [] ∨ n.any isBlank = true
  · rw [if_pos hn]
    rw [hsolid] at hn
    exact iff_of_false (by simp) fun h => hn.elim h.1 fun hs => hs h.2.1
  · rw [if_neg hn]
    rw [hsolid, not_or, not_not] at hn
    exact ⟨fun h => ⟨hn.1, hn.2, (Except.ok.inj h).symm⟩, fun h => h.2.2 ▸ rfl⟩

lemma parseEntry_name {s : List Char} (hs : '{' ∉ s) {e : Entry} :
    parseEntry s = .ok e ↔ s ≠ [] ∧ Solid s ∧ e = ⟨.ofList s, []⟩ := by
  rw [parseEntry, splitOnce_eq_none hs]
  change (do
    let name ← checkName s
    return ({ name } : Entry)) = _ ↔ _
  simp only [bind_eq_ok_iff, checkName_eq_ok_iff]
  constructor
  · rintro ⟨_, ⟨hne, hsolid, rfl⟩, h⟩
    exact ⟨hne, hsolid, (Except.ok.inj h).symm⟩
  · rintro ⟨hne, hsolid, rfl⟩
    exact ⟨_, ⟨hne, hsolid, rfl⟩, rfl⟩

lemma parseEntry_open {n r : List Char} (hn : '{' ∉ n) (hr : r.getLast? ≠ some '}') (e : Entry) :
    parseEntry (n ++ '{' :: r) ≠ .ok e := by
  rw [parseEntry, splitOnce_append hn]
  simp only [if_pos hr]
  intro h
  cases h

lemma parseEntry_braced {n i : List Char} (hn : '{' ∉ n) {e : Entry} :
    parseEntry (n ++ '{' :: (i ++ ['}'])) = .ok e ↔ Braceable n i ∧ ∃ os,
      List.Forall₂ ReadsOption ((pieces isBlank i).filter (· ≠ [])) os ∧
        e = ⟨.ofList (trim n), os⟩ := by
  have hend : (i ++ ['}']).getLast? = some '}' := List.getLast?_concat
  have hparse : parseEntry (n ++ '{' :: (i ++ ['}'])) = (do
      let options ← parseOptions i
      let name ← checkName (trim n)
      return (⟨name, options⟩ : Entry)) := by
    rw [parseEntry, splitOnce_append hn]
    simp only [hend, ne_eq, not_true_eq_false, if_false, List.dropLast_concat]
  rw [hparse]
  simp only [bind_eq_ok_iff, parseOptions_eq_ok_iff, checkName_eq_ok_iff]
  constructor
  · rintro ⟨os, ⟨hbalanced, hnamed, hos⟩, _, ⟨hne, hsolid, rfl⟩, h⟩
    exact ⟨⟨hn, hne, hsolid, hbalanced, hnamed⟩, os, hos, (Except.ok.inj h).symm⟩
  · rintro ⟨h, os, hos, rfl⟩
    exact ⟨os, ⟨h.balanced, h.named, hos⟩, _, ⟨h.name_ne, h.name_solid, rfl⟩, rfl⟩

lemma brace_unique {n n' r r' : List Char} (hn : '{' ∉ n) (hn' : '{' ∉ n')
    (h : n ++ '{' :: r = n' ++ '{' :: r') : n = n' ∧ r = r' := by
  have heq := (splitOnce_append hn r).symm.trans (h ▸ splitOnce_append hn' r')
  rw [Option.some.injEq, Prod.mk.injEq] at heq
  exact heq

/-- An entry ends with a brace if it holds one at all, be it in quotes. -/
lemma parseEntry_eq_ok_iff {s : List Char} (hs : s ≠ []) {e : Entry} :
    parseEntry s = .ok e ↔ IsEntry s ∧ ReadsEntry s e := by
  by_cases hbrace : '{' ∈ s
  · obtain ⟨n, r, rfl, hn⟩ := List.eq_append_cons_of_mem hbrace
    constructor
    · intro h
      by_cases hr : r.getLast? = some '}'
      · obtain ⟨i, rfl⟩ := List.getLast?_eq_some_iff.mp hr
        obtain ⟨hbraceable, os, hos, rfl⟩ := (parseEntry_braced hn).mp h
        exact ⟨.inr ⟨n, i, rfl, hbraceable⟩, .braced hn hos⟩
      · exact absurd h (parseEntry_open hn hr e)
    · rintro ⟨⟨-, hfree⟩ | ⟨n', i, heq, hbraceable⟩, hread⟩
      · exact absurd hbrace hfree
      · obtain ⟨rfl, rfl⟩ := brace_unique hn hbraceable.name_free heq
        generalize htext : n ++ '{' :: (i ++ ['}']) = t at hread
        cases hread with
        | name hfree => exact absurd (htext ▸ hbrace) hfree
        | braced hn' hos =>
          obtain ⟨rfl, hi⟩ := brace_unique hn hn' htext
          obtain rfl := List.append_cancel_right hi
          exact (parseEntry_braced hn).mpr ⟨hbraceable, _, hos, rfl⟩
  · rw [parseEntry_name hbrace]
    constructor
    · rintro ⟨-, hsolid, rfl⟩
      exact ⟨.inl ⟨hsolid, hbrace⟩, .name hbrace⟩
    · rintro ⟨⟨hsolid, -⟩ | ⟨n, i, rfl, -⟩, hread⟩
      · refine ⟨hs, hsolid, ?_⟩
        cases hread with
        | name _ => rfl
        | braced _ _ => exact absurd (by simp) hbrace
      · exact absurd (by simp) hbrace

lemma exists_readsEntry {s : List Char} (h : IsEntry s) : ∃ e, ReadsEntry s e := by
  rcases h with ⟨-, hfree⟩ | ⟨n, i, rfl, hbraceable⟩
  · exact ⟨_, .name hfree⟩
  · obtain ⟨os, hos⟩ := exists_forall₂
      (l := (pieces isBlank i).filter (· ≠ [])) fun w _ => exists_readsOption w
    exact ⟨_, .braced hbraceable.name_free hos⟩

/-! ### Pipelines -/

lemma trim_ne_nil {s : List Char} (h : isBlankText s = false) : trim s ≠ [] := by
  intro htrim
  rw [trim, List.reverse_eq_nil_iff, List.dropWhile_eq_nil_iff] at htrim
  have hdrop : s.dropWhile isBlank = [] := by
    by_contra hne
    have hfirst := htrim _ (List.mem_reverse.mpr (List.head_mem hne))
    rw [List.head_dropWhile_not isBlank hne] at hfirst
    cases hfirst
  have hall : isBlankText s = true := List.all_eq_true.mpr (List.dropWhile_eq_nil_iff.mp hdrop)
  rw [h] at hall
  cases hall

lemma isBracket_of_comma {c : Char} (hc : (c == ',') = true) : isBracket c = false := by
  rw [beq_iff_eq.mp hc]
  decide

lemma splitEntries_eq_ok_iff {t : List Char} {ps : List (List Char)} :
    splitEntries t = .ok ps ↔ isBalanced t = true ∧ (∀ p ∈ ps, isBlankText p = false) ∧
      ps = pieces (· == ',') t := by
  have hkeep (qs : List (List Char)) : (do
      if qs.any isBlankText then throw (Malformed.emptyEntry (.ofList t))
      return qs : Except Malformed (List (List Char))) = .ok ps ↔
        (∀ p ∈ qs, isBlankText p = false) ∧ qs = ps := by
    by_cases hblank : qs.any isBlankText = true
    · rw [if_pos hblank]
      refine ⟨nofun, fun h => ?_⟩
      obtain ⟨p, hp, hp'⟩ := List.any_eq_true.mp hblank
      rw [h.1 p hp] at hp'
      cases hp'
    · rw [if_neg hblank]
      have hall : ∀ p ∈ qs, isBlankText p = false := by
        simpa using hblank
      exact ⟨fun h => ⟨hall, Except.ok.inj h⟩, fun h => h.2 ▸ rfl⟩
  rw [splitEntries, bind_eq_ok_iff]
  simp only [splitBalanced_eq_ok_iff fun _ => isBracket_of_comma]
  constructor
  · rintro ⟨_, ⟨hbalanced, rfl⟩, h⟩
    obtain ⟨hall, rfl⟩ := (hkeep _).mp h
    exact ⟨hbalanced, hall, rfl⟩
  · rintro ⟨hbalanced, hall, rfl⟩
    exact ⟨_, ⟨hbalanced, rfl⟩, (hkeep _).mpr ⟨hall, rfl⟩⟩

lemma mapM_parseEntry_eq_ok_iff {ps : List (List Char)} (hps : ∀ p ∈ ps, isBlankText p = false)
    {es : List Entry} :
    ps.mapM (fun p => parseEntry (trim p)) = .ok es ↔
      (∀ p ∈ ps, IsEntry (trim p)) ∧ List.Forall₂ (fun p e => ReadsEntry (trim p) e) ps es := by
  have hentry : List.Forall₂ (fun p e => parseEntry (trim p) = .ok e) ps es ↔
      List.Forall₂ (fun p e => IsEntry (trim p) ∧ ReadsEntry (trim p) e) ps es := by
    constructor <;> intro h
    · refine ((List.forall₂_and_left ps es).mpr ⟨hps, h⟩).imp fun p e hpe => ?_
      exact (parseEntry_eq_ok_iff (trim_ne_nil hpe.1)).mp hpe.2
    · refine ((List.forall₂_and_left ps es).mpr ⟨hps, h⟩).imp fun p e hpe => ?_
      exact (parseEntry_eq_ok_iff (trim_ne_nil hpe.1)).mpr hpe.2
  rw [mapM_eq_ok_iff, hentry]
  exact List.forall₂_and_left ps es

lemma parseEntries_eq_ok_iff {t : List Char} {es : List Entry} :
    parseEntries t = .ok es ↔ Grammatical t ∧ ReadsPipeline t es := by
  rw [parseEntries]
  by_cases hblank : isBlankText t = true
  · rw [if_pos hblank]
    refine ⟨fun h => ⟨.inl hblank, Except.ok.inj h ▸ .blank hblank⟩, fun h => ?_⟩
    cases h.2 with
    | blank _ => rfl
    | entries ht _ =>
      rw [hblank] at ht
      cases ht
  · rw [if_neg hblank]
    simp only [bind_eq_ok_iff, splitEntries_eq_ok_iff]
    constructor
    · rintro ⟨_, ⟨hbalanced, hall, rfl⟩, h⟩
      obtain ⟨hentries, hread⟩ := (mapM_parseEntry_eq_ok_iff hall).mp h
      exact ⟨.inr ⟨hbalanced, fun p hp => ⟨hall p hp, hentries p hp⟩⟩,
        .entries (Bool.eq_false_iff.mpr hblank) hread⟩
    · rintro ⟨hblank' | ⟨hbalanced, hall⟩, hread⟩
      · exact absurd hblank' hblank
      · have hpieces : ∀ p ∈ pieces (· == ',') t, isBlankText p = false := fun p hp => (hall p hp).1
        refine ⟨_, ⟨hbalanced, hpieces, rfl⟩, (mapM_parseEntry_eq_ok_iff hpieces).mpr ?_⟩
        cases hread with
        | blank ht => exact absurd ht hblank
        | entries _ hes => exact ⟨fun p hp => (hall p hp).2, hes⟩

lemma exists_readsPipeline {t : List Char} (h : Grammatical t) : ∃ es, ReadsPipeline t es := by
  by_cases hblank : isBlankText t = true
  · exact ⟨[], .blank hblank⟩
  · rcases h with hblank' | ⟨-, hall⟩
    · exact absurd hblank' hblank
    · obtain ⟨es, hes⟩ := exists_forall₂ (l := pieces (· == ',') t)
        fun p hp => exists_readsEntry (hall p hp).2
      exact ⟨es, .entries (Bool.eq_false_iff.mpr hblank) hes⟩

lemma Entry.parse_eq_ok_iff {text : String} {es : List Entry} :
    Entry.parse text = .ok es ↔ parseEntries text.toList = .ok es :=
  mapError_eq_ok_iff

/-- **Reading accepts the grammar of pipelines**, and gives what the pieces of a text say: entries
are read from a text exactly if it is grammatical and says them, there are such entries for every
grammatical text, and any other text is reported as malformed. -/
theorem parse_grammatical (text : String) :
    (∀ es, Entry.parse text = .ok es ↔
      Grammatical text.toList ∧ ReadsPipeline text.toList es) ∧
    ((∃ es, Entry.parse text = .ok es) ↔ Grammatical text.toList) ∧
    ((∃ c, Entry.parse text = .error (.malformed c)) ↔ ¬ Grammatical text.toList) := by
  have hread : ∀ es, Entry.parse text = .ok es ↔
      Grammatical text.toList ∧ ReadsPipeline text.toList es := fun es =>
    Entry.parse_eq_ok_iff.trans parseEntries_eq_ok_iff
  have hsome : (∃ es, Entry.parse text = .ok es) ↔ Grammatical text.toList := by
    refine ⟨fun ⟨es, hes⟩ => ((hread es).mp hes).1, fun h => ?_⟩
    obtain ⟨es, hes⟩ := exists_readsPipeline h
    exact ⟨es, (hread es).mpr ⟨h, hes⟩⟩
  refine ⟨hread, hsome, ?_⟩
  rw [← hsome, Entry.parse]
  cases parseEntries text.toList <;> simp [Except.mapError]

end OpTree.Pipeline
