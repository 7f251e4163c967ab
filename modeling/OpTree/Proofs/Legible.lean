import OpTree.Proofs.Numerals
import OpTree.Text.Quoted
import Mathlib.Data.Bool.AllAny

/-!
Texts from which their content can be told. Two texts that agree up to what stands behind them
have the same content and the same text behind them, provided that no word goes on there. This
is shown for words, numbers, quoted texts and lists, from which everything else is put together.
-/

namespace OpTree.Text

open OpTree.Json

/-- A character that words are made of. Beyond ASCII every character counts. -/
def isWordChar (c : Char) : Bool :=
  c.isAlphanum || ['_', '.', '$', '-'].contains c || 0x80 ≤ c.toNat

/-- A text at whose front no word goes on. -/
def Stops (x : List Char) : Prop := ∀ c ∈ x.head?, isWordChar c = false

/-- The texts `s` and `t` can agree, up to what stands behind them, only if `p` holds. -/
def Tells (p : Prop) (s t : List Char) : Prop :=
  ∀ x y, Stops x → Stops y → s ++ x = t ++ y → p ∧ x = y

lemma stops_cons {c : Char} (hc : isWordChar c = false) (x : List Char) : Stops (c :: x) := by
  intro d hd
  obtain rfl : c = d := by simpa using hd
  exact hc

lemma isWordChar_of_isDigit {c : Char} (hc : c.isDigit = true) : isWordChar c = true := by
  simp [isWordChar, Char.isAlphanum, hc]

lemma Stops.not_isDigit {x : List Char} (hx : Stops x) : ∀ c ∈ x.head?, c.isDigit = false := by
  intro c hc
  by_contra hdigit
  rw [Bool.not_eq_false] at hdigit
  exact absurd (isWordChar_of_isDigit hdigit) (by simp [hx c hc])

lemma Stops.ends {x : List Char} (hx : Stops x) : Numeral.Ends x := by
  intro c hc
  refine ⟨hx.not_isDigit c hc, ?_, ?_, ?_⟩ <;>
  · rintro rfl
    exact absurd (hx _ hc) (by decide)

namespace Tells

variable {p q : Prop} {s t s' t' : List Char}

lemma imp (h : Tells p s t) (hpq : p → q) : Tells q s t := fun x y hx hy heq =>
  (h x y hx hy heq).imp_left hpq

lemma of_ne {c d : Char} (h : c ≠ d) : Tells p (c :: s) (d :: t) := fun _ _ _ _ heq =>
  absurd (List.cons.inj heq).1 h

lemma same (hp : p) (s : List Char) : Tells p s s := fun _ _ _ _ heq =>
  ⟨hp, List.append_cancel_left heq⟩

lemma of_eq (h : Tells p s t) (hst : s = t) : p := by
  have hstops : Stops [] := fun _ hc => by cases hc
  exact (h [] [] hstops hstops (congrArg (· ++ []) hst)).1

lemma cons {c : Char} (h : Tells p s t) : Tells p (c :: s) (c :: t) := fun x y hx hy heq =>
  h x y hx hy (List.cons.inj heq).2

lemma append_left (l : List Char) (h : Tells p s t) : Tells p (l ++ s) (l ++ t) := by
  induction l with
  | nil => exact h
  | cons c l ih => exact ih.cons

lemma append {c d : Char} (h : Tells p s t) (hc : isWordChar c = false) (hd : isWordChar d = false)
    (h' : Tells q (c :: s') (d :: t')) : Tells (p ∧ q) (s ++ c :: s') (t ++ d :: t') := by
  intro x y hx hy heq
  rw [List.append_assoc, List.append_assoc] at heq
  obtain ⟨hp, htail⟩ := h _ _ (stops_cons hc _) (stops_cons hd _) heq
  obtain ⟨hq, rfl⟩ := h' x y hx hy htail
  exact ⟨⟨hp, hq⟩, rfl⟩

end Tells

/-! ### Words and numbers -/

lemma span_inj {δ : Type} {p : δ → Bool} {s t x y : List δ} (hs : ∀ c ∈ s, p c = true)
    (ht : ∀ c ∈ t, p c = true) (hx : ∀ c ∈ x.head?, p c = false) (hy : ∀ c ∈ y.head?, p c = false)
    (h : s ++ x = t ++ y) : s = t ∧ x = y := by
  have hnil {z : List δ} (hz : ∀ c ∈ z.head?, p c = false) : z.takeWhile p = [] := by
    cases z with
    | nil => rfl
    | cons c z => simp [hz c (by simp)]
  have htake := congrArg (List.takeWhile p) h
  rw [List.takeWhile_append_of_pos hs, List.takeWhile_append_of_pos ht, hnil hx, hnil hy,
    List.append_nil, List.append_nil] at htake
  subst htake
  exact ⟨rfl, List.append_cancel_left h⟩

lemma tells_word {s t : List Char} (hs : ∀ c ∈ s, isWordChar c = true)
    (ht : ∀ c ∈ t, isWordChar c = true) : Tells (s = t) s t :=
  fun _ _ hx hy heq => span_inj hs ht hx hy heq

lemma toDigits_inj {m n : ℕ} (h : Nat.toDigits 10 m = Nat.toDigits 10 n) : m = n := by
  rw [← digitsValue_toDigits m, h, digitsValue_toDigits]

lemma toDigits_append_inj {m n : ℕ} {x y : List Char} (hx : ∀ c ∈ x.head?, c.isDigit = false)
    (hy : ∀ c ∈ y.head?, c.isDigit = false)
    (h : Nat.toDigits 10 m ++ x = Nat.toDigits 10 n ++ y) : m = n ∧ x = y :=
  (span_inj isDigit_of_mem_toDigits isDigit_of_mem_toDigits hx hy h).imp_left toDigits_inj

lemma tells_toDigits (m n : ℕ) : Tells (m = n) (Nat.toDigits 10 m) (Nat.toDigits 10 n) :=
  fun _ _ hx hy heq => toDigits_append_inj hx.not_isDigit hy.not_isDigit heq

lemma toList_toString_nat (n : ℕ) : (toString n).toList = Nat.toDigits 10 n := by
  rw [Nat.toString_eq_repr, Nat.repr_eq_ofList_toDigits, String.toList_ofList]

lemma toString_nat_inj {m n : ℕ} (h : toString m = toString n) : m = n := by
  rw [← String.toList_inj, toList_toString_nat, toList_toString_nat] at h
  exact toDigits_inj h

lemma exists_text_eq_cons {n : Numeral} (hn : n.WellFormed) (plusSign : Bool) :
    ∃ c r, n.text plusSign = c :: r ∧
      (c.isDigit = true ∨ c = '-' ∧ ∃ d r', r = d :: r' ∧ d.isDigit = true) := by
  obtain ⟨c, r, hwhole⟩ := List.exists_cons_of_ne_nil hn.whole_ne
  have hc : c.isDigit = true := hn.whole_digits c (by simp [hwhole])
  unfold Numeral.text Numeral.body
  rw [hwhole]
  cases n.negative with
  | true => exact ⟨'-', _, rfl, .inr ⟨rfl, c, _, rfl, hc⟩⟩
  | false => exact ⟨c, _, rfl, .inl hc⟩

lemma tells_numeral {n m : Numeral} (hn : n.WellFormed) (hm : m.WellFormed) (plusSign : Bool) :
    Tells (n = m) (n.text plusSign) (m.text plusSign) := by
  have hbody (hneg : n.negative = m.negative) :
      Tells (n = m) (n.body plusSign) (m.body plusSign) := by
    intro x y hx hy heq
    have hscan := scanNumber_body hn plusSign hx.ends
    rw [heq, hneg, scanNumber_body hm plusSign hy.ends] at hscan
    have hnumber := congrArg Prod.fst hscan
    have hrest := congrArg Prod.snd hscan
    simp only [Leaf.number.injEq] at hnumber hrest
    exact ⟨hnumber.symm, hrest.symm⟩
  have hhead {n : Numeral} (hn : n.WellFormed) :
      ∃ c r, n.body plusSign = c :: r ∧ c ≠ '-' := by
    obtain ⟨c, r, hwhole⟩ := List.exists_cons_of_ne_nil hn.whole_ne
    refine ⟨c, _, by rw [Numeral.body, hwhole, List.cons_append], ?_⟩
    rintro rfl
    exact absurd (hn.whole_digits '-' (by simp [hwhole])) (by decide)
  unfold Numeral.text
  cases hneg : n.negative <;> cases hneg' : m.negative
  · exact hbody (hneg.trans hneg'.symm)
  · obtain ⟨c, r, hcr, hne⟩ := hhead hn
    rw [if_neg Bool.false_ne_true, if_pos rfl, hcr]
    exact .of_ne hne
  · obtain ⟨c, r, hcr, hne⟩ := hhead hm
    rw [if_neg Bool.false_ne_true, if_pos rfl, hcr]
    exact .of_ne hne.symm
  · exact (hbody (hneg.trans hneg'.symm)).cons

/-! ### Quoted texts -/

def hexValue (ds : List Char) : ℕ := ds.foldl (fun n c => 16 * n + (hexDigit? c).getD 0) 0

lemma hexDigit?_digitChar : ∀ k < 16, hexDigit? (Nat.digitChar k) = some k := by decide

lemma hexValue_toDigits (n : ℕ) : hexValue (Nat.toDigits 16 n) = n := by
  induction n using Nat.strong_induction_on with
  | _ n ih =>
    rw [Nat.toDigits_eq_if (by norm_num)]
    split
    · rename_i hlt
      simp [hexValue, hexDigit?_digitChar n hlt]
    · rename_i hge
      have hdiv := ih (n / 16) (Nat.div_lt_self (by omega) (by norm_num))
      unfold hexValue at hdiv ⊢
      rw [List.foldl_append, hdiv, List.foldl_cons, List.foldl_nil,
        hexDigit?_digitChar _ (Nat.mod_lt _ (by norm_num)), Option.getD_some]
      omega

lemma exists_digitChar_of_mem_toDigits {b n : ℕ} (hb : 1 < b) :
    ∀ c ∈ Nat.toDigits b n, ∃ k < b, c = Nat.digitChar k := by
  induction n using Nat.strong_induction_on with
  | _ n ih =>
    rw [Nat.toDigits_eq_if hb]
    intro c hc
    split at hc
    · rename_i hlt
      exact ⟨n, hlt, List.mem_singleton.mp hc⟩
    · rename_i hge
      rcases List.mem_append.mp hc with hc | hc
      · exact ih (n / b) (Nat.div_lt_self (by omega) hb) c hc
      · exact ⟨n % b, Nat.mod_lt _ (by omega), List.mem_singleton.mp hc⟩

lemma digitChar_ne_brace : ∀ k < 16, Nat.digitChar k ≠ '}' := by decide

lemma ne_brace_of_mem_toDigits {n : ℕ} : ∀ c ∈ Nat.toDigits 16 n, c ≠ '}' := by
  intro c hc
  obtain ⟨k, hk, rfl⟩ := exists_digitChar_of_mem_toDigits (by norm_num) c hc
  exact digitChar_ne_brace k hk

/-- The character that an escaped text begins with, and the text behind it. -/
def unescape : List Char → Option (Char × List Char)
  | '\\' :: '0' :: r => some ('\x00', r)
  | '\\' :: 't' :: r => some ('\t', r)
  | '\\' :: 'r' :: r => some ('\r', r)
  | '\\' :: 'n' :: r => some ('\n', r)
  | '\\' :: '\\' :: r => some ('\\', r)
  | '\\' :: '"' :: r => some ('"', r)
  | '\\' :: 'u' :: '{' :: r =>
    some (Char.ofNat (hexValue (r.takeWhile (· ≠ '}'))), (r.dropWhile (· ≠ '}')).drop 1)
  | c :: r => some (c, r)
  | [] => none

lemma unescape_hex (n : ℕ) (x : List Char) :
    unescape (['\\', 'u', '{'] ++ Nat.toDigits 16 n ++ ['}'] ++ x) = some (Char.ofNat n, x) := by
  have hne : ∀ c ∈ Nat.toDigits 16 n, decide (c ≠ '}') = true := fun c hc =>
    decide_eq_true (ne_brace_of_mem_toDigits c hc)
  simp only [List.append_assoc, List.cons_append, List.nil_append, unescape]
  rw [List.takeWhile_append_of_pos hne, List.dropWhile_append_of_pos hne]
  simp [hexValue_toDigits]

lemma unescape_escapeChar (c : Char) (x : List Char) :
    unescape (escapeChar c ++ x) = some (c, x) := by
  have hplain (hc : c ≠ '\\') : unescape ([c] ++ x) = some (c, x) := by
    rw [List.singleton_append, unescape]
    all_goals
      intros
      exact hc ‹_›
  unfold escapeChar
  split
  case h_7 hslash _ =>
    split
    · exact hplain hslash
    · split
      · rw [unescape_hex, Char.ofNat_toNat]
      · exact hplain hslash
  all_goals rfl

lemma exists_escapeChar_eq_cons (c : Char) : ∃ d r, escapeChar c = d :: r ∧ d ≠ '"' := by
  unfold escapeChar
  split
  case h_7 hquote =>
    split
    · exact ⟨c, [], rfl, hquote⟩
    · split
      · exact ⟨'\\', _, rfl, by decide⟩
      · exact ⟨c, [], rfl, hquote⟩
  all_goals exact ⟨'\\', _, rfl, by decide⟩

lemma length_lt_of_unescape {l r : List Char} {c : Char} (h : unescape l = some (c, r)) :
    r.length < l.length := by
  unfold unescape at h
  split at h <;> cases h
  case h_7 r =>
    have hdrop := (List.dropWhile_suffix (l := r) (· ≠ '}')).length_le
    simp only [List.length_drop, List.length_cons]
    omega
  all_goals simp only [List.length_cons]; omega

/-- The text that stands escaped up to the next closing quote, and what stands behind the quote. -/
def readInside (l : List Char) : Option (List Char × List Char) :=
  if l.head? = some '"' then some ([], l.tail)
  else
    match _ : unescape l with
    | some (c, r) => (readInside r).map fun q => (c :: q.1, q.2)
    | none => none
termination_by l.length
decreasing_by exact length_lt_of_unescape ‹_›

/-- Reads a quoted text at the front of another: the text that it stands for, and the rest. -/
def readQuoted : List Char → Option (List Char × List Char)
  | '"' :: r => readInside r
  | _ => none

lemma readInside_of_unescape {l r : List Char} {c : Char} (hquote : l.head? ≠ some '"')
    (h : unescape l = some (c, r)) :
    readInside l = (readInside r).map fun q => (c :: q.1, q.2) := by
  rw [readInside, if_neg hquote]
  split <;> simp_all

/-- **A quoted text ends where it ends**: it is read back, whatever stands behind it. -/
theorem readQuoted_quoteChars (s x : List Char) : readQuoted (quoteChars s ++ x) = some (s, x) := by
  have hinside : readInside (s.flatMap escapeChar ++ '"' :: x) = some (s, x) := by
    induction s with
    | nil =>
      rw [readInside]
      rfl
    | cons c s ih =>
      obtain ⟨d, r, hescape, hne⟩ := exists_escapeChar_eq_cons c
      have hquote : (escapeChar c ++ (s.flatMap escapeChar ++ '"' :: x)).head? ≠ some '"' := by
        simpa [hescape] using hne
      rw [List.flatMap_cons, List.append_assoc,
        readInside_of_unescape hquote (unescape_escapeChar c _), ih]
      rfl
  simpa [quoteChars, readQuoted] using hinside

/-- So it can be told from what it begins. -/
theorem quoteChars_append_inj {s t x y : List Char} (h : quoteChars s ++ x = quoteChars t ++ y) :
    s = t ∧ x = y := by
  have hread := congrArg readQuoted h
  rwa [readQuoted_quoteChars, readQuoted_quoteChars, Option.some.injEq, Prod.mk.injEq] at hread

lemma tells_quote (s t : String) : Tells (s = t) (quote s).toList (quote t).toList := by
  intro x y _ _ heq
  rw [quote, quote, String.toList_ofList, String.toList_ofList] at heq
  exact (quoteChars_append_inj heq).imp_left String.toList_inj.mp

/-! ### Lists -/

lemma map_eq_of_map_eq {α β γ δ : Type} {f : α → γ} {f' : β → γ} {g : α → δ} {g' : β → δ}
    {as : List α} {bs : List β} (h : ∀ a ∈ as, ∀ b ∈ bs, f a = f' b → g a = g' b)
    (heq : as.map f = bs.map f') : as.map g = bs.map g' := by
  induction as generalizing bs with
  | nil =>
    obtain rfl : bs = [] := List.map_eq_nil_iff.mp heq.symm
    rfl
  | cons a as ih =>
    cases bs with
    | nil => cases heq
    | cons b bs =>
      rw [List.map_cons, List.map_cons, List.cons.injEq] at heq
      have hrest := ih (fun a hmem b hmem' => h a (.tail _ hmem) b (.tail _ hmem')) heq.2
      rw [List.map_cons, List.map_cons, h a (by simp) b (by simp) heq.1, hrest]

/-- A list with separators is its first item and, in a row, the others with the separators in
front of them. -/
lemma intercalate_cons {δ : Type} (sep s : List δ) (l : List (List δ)) :
    sep.intercalate (s :: l) = s ++ l.flatMap fun t => sep ++ t := by
  induction l generalizing s with
  | nil => rw [List.intercalate_singleton, List.flatMap_nil, List.append_nil]
  | cons t l ih =>
    rw [List.intercalate_cons_cons, ih, List.flatMap_cons, List.append_assoc, List.append_assoc]

section

variable {α β γ : Type} {f : α → List Char} {f' : β → List Char} {g : α → γ} {k : β → γ}

/-- **Texts in a row can be told from each other**, if each can be told in front of what may stand
behind it (`q`), and what comes behind the row does not begin like one of them (`p`). -/
theorem flatMap_append_inj {p q : List Char → Prop} {as : List α} {bs : List β} {x y : List Char}
    (hpq : ∀ z, p z → q z) (hx : ¬p x ∧ q x) (hy : ¬p y ∧ q y)
    (ha : ∀ a ∈ as, ∀ z, p (f a ++ z)) (hb : ∀ b ∈ bs, ∀ z, p (f' b ++ z))
    (h : ∀ a ∈ as, ∀ b ∈ bs, ∀ x y, q x → q y → f a ++ x = f' b ++ y → g a = k b ∧ x = y)
    (heq : as.flatMap f ++ x = bs.flatMap f' ++ y) : as.map g = bs.map k ∧ x = y := by
  have hrest {γ : Type} {f : γ → List Char} {cs : List γ} {x : List Char}
      (hc : ∀ c ∈ cs, ∀ z, p (f c ++ z)) (hx : q x) : q (cs.flatMap f ++ x) := by
    cases cs with
    | nil => exact hx
    | cons c cs =>
      rw [List.flatMap_cons, List.append_assoc]
      exact hpq _ (hc c (by simp) _)
  induction as generalizing bs with
  | nil =>
    cases bs with
    | nil => exact ⟨rfl, heq⟩
    | cons b bs =>
      rw [List.flatMap_nil, List.nil_append, List.flatMap_cons, List.append_assoc] at heq
      exact absurd (heq ▸ hb b (by simp) _) hx.1
  | cons a as ih =>
    cases bs with
    | nil =>
      rw [List.flatMap_nil, List.nil_append, List.flatMap_cons, List.append_assoc] at heq
      exact absurd (heq ▸ ha a (by simp) _) hy.1
    | cons b bs =>
      rw [List.flatMap_cons, List.flatMap_cons, List.append_assoc, List.append_assoc] at heq
      have ha' : ∀ a ∈ as, ∀ z, p (f a ++ z) := fun a hmem => ha a (.tail _ hmem)
      have hb' : ∀ b ∈ bs, ∀ z, p (f' b ++ z) := fun b hmem => hb b (.tail _ hmem)
      obtain ⟨hab, heq⟩ := h a (by simp) b (by simp) _ _ (hrest ha' hx.2) (hrest hb' hy.2) heq
      obtain ⟨hmap, hxy⟩ := ih ha' hb'
        (fun a hmem b hmem' => h a (.tail _ hmem) b (.tail _ hmem')) heq
      exact ⟨by rw [List.map_cons, List.map_cons, hab, hmap], hxy⟩

end

section

variable {α β : Type} {f : α → List Char} {g : α → β} {c : Char}

/-- What stands behind an item of a list that is closed by `c`. -/
def Follows (c : Char) (z : List Char) : Prop := ∃ r, z = c :: r ∨ z = ',' :: ' ' :: r

lemma Follows.stops {z : List Char} (hz : Follows c z) (hc : isWordChar c = false) : Stops z := by
  obtain ⟨r, rfl | rfl⟩ := hz
  · exact stops_cons hc r
  · exact stops_cons (by decide) _

/-- **A list can be told from its text**, if its items can in front of what stands behind them and
a character closes it that begins no item. -/
theorem intercalate_append_inj_of_follows (hc : c ≠ ',') {as bs : List α}
    (h : ∀ a ∈ as, ∀ b ∈ bs, ∀ x y, Follows c x → Follows c y → f a ++ x = f b ++ y →
      g a = g b ∧ x = y)
    (ha : ∀ a ∈ as, ∃ d r, f a = d :: r ∧ d ≠ c) (hb : ∀ b ∈ bs, ∃ d r, f b = d :: r ∧ d ≠ c)
    {x y : List Char}
    (heq : [',', ' '].intercalate (as.map f) ++ c :: x =
      [',', ' '].intercalate (bs.map f) ++ c :: y) : as.map g = bs.map g ∧ x = y := by
  have hempty {a : α} {as : List α} {x y : List Char} (ha : ∃ d r, f a = d :: r ∧ d ≠ c) :
      c :: x ≠ [',', ' '].intercalate ((a :: as).map f) ++ c :: y := by
    obtain ⟨d, r, hd, hne⟩ := ha
    rw [List.map_cons, intercalate_cons, hd]
    exact fun h => hne (List.cons.inj h).1.symm
  -- behind the first item come the others, each with a comma in front of it
  have hfollows (l : List α) (x : List Char) :
      Follows c (l.flatMap (fun a => ',' :: ' ' :: f a) ++ c :: x) := by
    cases l with
    | nil => exact ⟨x, .inl rfl⟩
    | cons a l => exact ⟨_, .inr (by rw [List.flatMap_cons]; rfl)⟩
  have hclose (x : List Char) : ¬(∃ r, c :: x = ',' :: ' ' :: r) ∧ Follows c (c :: x) :=
    ⟨fun ⟨_, h⟩ => hc (List.cons.inj h).1, x, .inl rfl⟩
  cases as with
  | nil =>
    cases bs with
    | nil => exact ⟨rfl, by simpa using heq⟩
    | cons b bs => exact absurd heq (hempty (hb b (by simp)))
  | cons a as =>
    cases bs with
    | nil => exact absurd heq.symm (hempty (ha a (by simp)))
    | cons b bs =>
      simp only [List.map_cons, intercalate_cons, List.flatMap_map, List.append_assoc] at heq
      obtain ⟨hab, hrest⟩ := h a (by simp) b (by simp) _ _ (hfollows as x) (hfollows bs y) heq
      have hitem : ∀ a ∈ as, ∀ b ∈ bs, ∀ x y, Follows c x → Follows c y →
          ',' :: ' ' :: f a ++ x = ',' :: ' ' :: f b ++ y → g a = g b ∧ x = y :=
        fun a hmem b hmem' x y hx hy h' => h a (.tail _ hmem) b (.tail _ hmem') x y hx hy
          (List.cons.inj (List.cons.inj h').2).2
      obtain ⟨hmap, hxy⟩ := flatMap_append_inj (p := fun z => ∃ r, z = ',' :: ' ' :: r)
        (fun z ⟨r, hr⟩ => ⟨r, .inr hr⟩) (hclose x) (hclose y) (fun a _ z => ⟨_, rfl⟩)
        (fun b _ z => ⟨_, rfl⟩) hitem hrest
      exact ⟨by rw [List.map_cons, List.map_cons, hab, hmap], (List.cons.inj hxy).2⟩

theorem intercalate_append_inj (hc : c ≠ ',') (hstop : isWordChar c = false) {as bs : List α}
    (h : ∀ a ∈ as, ∀ b ∈ bs, Tells (g a = g b) (f a) (f b))
    (ha : ∀ a ∈ as, ∃ d r, f a = d :: r ∧ d ≠ c) (hb : ∀ b ∈ bs, ∃ d r, f b = d :: r ∧ d ≠ c)
    {x y : List Char}
    (heq : [',', ' '].intercalate (as.map f) ++ c :: x =
      [',', ' '].intercalate (bs.map f) ++ c :: y) : as.map g = bs.map g ∧ x = y :=
  intercalate_append_inj_of_follows hc
    (fun a hmem b hmem' x y hx hy => h a hmem b hmem' x y (hx.stops hstop) (hy.stops hstop))
    ha hb heq

/-- A list behind an opening and in front of a closing, or nothing if it is empty. -/
def bracketed (o : List Char) (c : Char) (l : List (List Char)) : List Char :=
  if l.isEmpty then [] else o ++ ([',', ' '].intercalate l ++ [c])

/-- A bracketed list can be told from its text, if what stands behind it (`s`) does not begin like
the opening. -/
theorem bracketed_append_inj {o s : List Char} (hos : ∀ x y, o ++ x ≠ s ++ y) (hc : c ≠ ',')
    {as bs : List α}
    (h : ∀ a ∈ as, ∀ b ∈ bs, ∀ x y, Follows c x → Follows c y → f a ++ x = f b ++ y →
      g a = g b ∧ x = y)
    (ha : ∀ a ∈ as, ∃ d r, f a = d :: r ∧ d ≠ c) (hb : ∀ b ∈ bs, ∃ d r, f b = d :: r ∧ d ≠ c)
    {x y : List Char}
    (heq : bracketed o c (as.map f) ++ (s ++ x) = bracketed o c (bs.map f) ++ (s ++ y)) :
    as.map g = bs.map g ∧ x = y := by
  have hnil (x : List Char) : bracketed o c [] ++ (s ++ x) = s ++ x := rfl
  have hcons (a : α) (as : List α) (x : List Char) :
      bracketed o c ((a :: as).map f) ++ (s ++ x) =
        o ++ ([',', ' '].intercalate ((a :: as).map f) ++ c :: (s ++ x)) := by
    rw [bracketed, List.isEmpty_map, List.isEmpty_cons, if_neg Bool.false_ne_true,
      List.append_assoc, List.append_assoc]
    rfl
  cases as with
  | nil =>
    cases bs with
    | nil => exact ⟨rfl, List.append_cancel_left heq⟩
    | cons b bs =>
      rw [List.map_nil, hnil, hcons] at heq
      exact absurd heq.symm (hos _ _)
  | cons a as =>
    cases bs with
    | nil =>
      rw [List.map_nil, hnil, hcons] at heq
      exact absurd heq (hos _ _)
    | cons b bs =>
      rw [hcons, hcons] at heq
      obtain ⟨hmap, hrest⟩ :=
        intercalate_append_inj_of_follows hc h ha hb (List.append_cancel_left heq)
      exact ⟨hmap, List.append_cancel_left hrest⟩

end

end OpTree.Text
