import OpTree.Json.Source
import OpTree.Json.Value
import OpTree.Proofs.Numerals

/-!
The text of a JSON value is read as the value. The text falls into the tokens of the value, and
the tokens are put together to the value again, whatever stands behind them.
-/

namespace OpTree.Json

open OpTree.Number

/-! ### Strings -/

lemma hexValue?_digitChar :
    ∀ n < 0x20, hexValue? '0' '0' (Nat.digitChar (n / 16 % 16)) (Nat.digitChar (n % 16)) =
      some n := by
  decide

lemma scanString_escapeChar (c : Char) (s : List Char) :
    scanString (escapeChar c ++ s) = (scanString s).cons c := by
  unfold escapeChar
  split
  case h_8 hquote hslash _ _ _ _ _ =>
    split
    · rename_i hlt
      have hvalue := hexValue?_digitChar c.toNat hlt
      have htrail : isTrailing c.toNat = false := by
        simp only [isTrailing, Bool.and_eq_false_iff, decide_eq_false_iff_not]
        omega
      have hlead : isLeading c.toNat = false := by
        simp only [isLeading, Bool.and_eq_false_iff, decide_eq_false_iff_not]
        omega
      simp only [hexPair, List.cons_append, List.nil_append]
      rw [scanString]
      simp only [hvalue, htrail, hlead, Char.ofNat_toNat, Bool.false_eq_true, if_false]
    · rename_i hlt
      rw [List.singleton_append, scanString, if_neg hlt]
      · exact hquote
      all_goals
        intros
        exact hslash ‹_›
  all_goals rfl

lemma scanString_text (s rest : List Char) :
    scanString (s.flatMap escapeChar ++ '"' :: rest) = ⟨s, none, rest⟩ := by
  induction s with
  | nil => rfl
  | cons c s ih =>
    rw [List.flatMap_cons, List.append_assoc, scanString_escapeChar, ih]
    rfl

/-! ### Tokens -/

lemma tokens_space {c : Char} (hc : isSpace c = true) (s : List Char) :
    tokens (c :: s) = tokens s := by
  rw [tokens, if_pos hc]

lemma tokens_cons {c : Char} (hc : isSpace c = false) (s : List Char) :
    tokens (c :: s) = (nextToken c s).1 :: tokens (nextToken c s).2 := by
  rw [tokens, if_neg (by simp [hc])]

@[simp] lemma tokens_comma (s : List Char) : tokens (',' :: s) = .comma :: tokens s :=
  tokens_cons (by decide) s

@[simp] lemma tokens_colon (s : List Char) : tokens (':' :: s) = .colon :: tokens s :=
  tokens_cons (by decide) s

@[simp] lemma tokens_openList (s : List Char) : tokens ('[' :: s) = .openList :: tokens s :=
  tokens_cons (by decide) s

@[simp] lemma tokens_closeList (s : List Char) : tokens (']' :: s) = .closeList :: tokens s :=
  tokens_cons (by decide) s

@[simp] lemma tokens_openObject (s : List Char) : tokens ('{' :: s) = .openObject :: tokens s :=
  tokens_cons (by decide) s

@[simp] lemma tokens_closeObject (s : List Char) :
    tokens ('}' :: s) = .closeObject :: tokens s :=
  tokens_cons (by decide) s

/-- The text `s` is read as the tokens `ts`, unless it goes on as a number. -/
def Lexes (s : List Char) (ts : List Token) : Prop :=
  ∀ rest, Numeral.Ends rest → tokens (s ++ rest) = ts ++ tokens rest

lemma ends_cons {c : Char} (s : List Char)
    (hc : c.isDigit = false ∧ c ≠ '.' ∧ c ≠ 'e' ∧ c ≠ 'E') : Numeral.Ends (c :: s) := by
  intro d hd
  obtain rfl : c = d := by simpa using hd
  exact hc

lemma ends_nil : Numeral.Ends [] := fun _ hc => absurd hc (by simp)

lemma lexes_string (s : String) : Lexes (stringText s).toList [.leaf (.string s)] := by
  intro rest _
  rw [stringText, String.toList_ofList, List.cons_append, List.append_assoc,
    tokens_cons (by decide)]
  simp only [nextToken, List.singleton_append, scanString_text, Option.getD_none,
    String.ofList_toList]

lemma nextToken_of_isDigit {c : Char} (hc : c.isDigit = true) (s : List Char) :
    nextToken c s = (scanNumber false (c :: s)).map .leaf id := by
  unfold nextToken
  split
  case h_12 => rw [if_pos hc]
  all_goals exact absurd hc (by decide)

lemma not_isSpace_of_isDigit {c : Char} (hc : c.isDigit = true) : isSpace c = false := by
  rw [Bool.eq_false_iff]
  intro h
  simp only [isSpace, Bool.or_eq_true, beq_iff_eq] at h
  rcases h with ((rfl | rfl) | rfl) | rfl <;> exact absurd hc (by decide)

lemma lexes_numeral {n : Numeral} (hn : n.WellFormed) (plusSign : Bool) :
    Lexes (n.text plusSign) [.leaf (.number n)] := by
  intro rest hrest
  have hscan := scanNumber_body hn plusSign hrest
  unfold Numeral.text
  cases hneg : n.negative with
  | true =>
    rw [hneg] at hscan
    rw [if_pos rfl, List.cons_append, tokens_cons (by decide)]
    simp only [nextToken, hscan, Prod.map, id, List.singleton_append]
  | false =>
    rw [hneg] at hscan
    obtain ⟨c, ds, hwhole⟩ := List.exists_cons_of_ne_nil hn.whole_ne
    have hc : c.isDigit = true := hn.whole_digits c (by simp [hwhole])
    have hbody : n.body plusSign ++ rest =
        c :: (ds ++ (n.fractionText ++ n.exponentText plusSign) ++ rest) := by
      simp [Numeral.body, hwhole]
    rw [hbody] at hscan
    rw [if_neg (by simp), hbody, tokens_cons (not_isSpace_of_isDigit hc),
      nextToken_of_isDigit hc, hscan]
    rfl

lemma lexes_null : Lexes "null".toList [.leaf .null] := fun rest _ => by
  rw [show "null".toList ++ rest = 'n' :: 'u' :: 'l' :: 'l' :: rest from rfl,
    tokens_cons (by decide)]
  rfl

lemma lexes_bool (b : Bool) : Lexes (toString b).toList [.leaf (.bool b)] := fun rest _ => by
  cases b with
  | true =>
    rw [show (toString true).toList ++ rest = 't' :: 'r' :: 'u' :: 'e' :: rest from rfl,
      tokens_cons (by decide)]
    rfl
  | false =>
    rw [show (toString false).toList ++ rest = 'f' :: 'a' :: 'l' :: 's' :: 'e' :: rest from rfl,
      tokens_cons (by decide)]
    rfl

lemma tokens_lineBreak (level : ℕ) (s : List Char) :
    tokens ((Value.lineBreak level).toList ++ s) = tokens s := by
  rw [Value.lineBreak, String.toList_ofList, List.cons_append, tokens_space (by decide)]
  induction 2 * level with
  | zero => rfl
  | succ k ih => rw [List.replicate_succ, List.cons_append, tokens_space (by decide), ih]

lemma lexes_intercalate {α : Type} (text : α → List Char) (ts : α → List Token) (level : ℕ)
    (items : List α) (h : ∀ i ∈ items, Lexes (text i) (ts i)) :
    Lexes ((',' :: (Value.lineBreak level).toList).intercalate (items.map text))
      ([.comma].intercalate (items.map ts)) := by
  induction items with
  | nil => exact fun rest _ => rfl
  | cons i items ih =>
    cases items with
    | nil => simpa using h i (by simp)
    | cons j items =>
      intro rest hrest
      have hi := h i (by simp)
      have hitems := ih (fun k hk => h k (by simp [hk])) rest hrest
      simp only [List.map_cons] at hitems ⊢
      simp only [List.intercalate_cons_cons, List.append_assoc, List.cons_append]
      rw [hi _ (ends_cons _ (by decide)), tokens_comma, tokens_lineBreak, hitems]
      simp

lemma ends_lineBreak (level : ℕ) (s : List Char) :
    Numeral.Ends ((Value.lineBreak level).toList ++ s) := by
  rw [Value.lineBreak, String.toList_ofList, List.cons_append]
  exact ends_cons _ (by decide)

lemma lexes_bracketed {α : Type} (text : α → String) (ts : α → List Token) (level : ℕ)
    (items : List α) (h : ∀ i ∈ items, Lexes (text i).toList (ts i)) {opening closing : String}
    {first last : Token} (hopen : ∀ s, tokens (opening.toList ++ s) = first :: tokens s)
    (hclose : ∀ s, tokens (closing.toList ++ s) = last :: tokens s) :
    Lexes (Value.bracketed opening closing level (items.map text)).toList
      (first :: ([.comma].intercalate (items.map ts) ++ [last])) := by
  intro rest _
  unfold Value.bracketed
  cases items with
  | nil => simp [hopen, hclose]
  | cons i items =>
    have hitems := lexes_intercalate (fun i => (text i).toList) ts (level + 1) (i :: items) h
    have hmap : ((i :: items).map text).map String.toList =
        (i :: items).map fun i => (text i).toList := List.map_map
    have hcomma : ",".toList ++ (Value.lineBreak (level + 1)).toList =
        ',' :: (Value.lineBreak (level + 1)).toList := rfl
    rw [if_neg (by simp)]
    simp only [String.toList_append, String.toList_intercalate, hmap, hcomma, List.append_assoc]
    rw [hopen, tokens_lineBreak, hitems _ (ends_lineBreak _ _), tokens_lineBreak, hclose]
    simp

namespace Value

/-! ### Values -/

/-- Induction along the nesting of lists and objects. -/
@[elab_as_elim]
theorem nested_induction {motive : Value → Prop} (null : motive .null)
    (bool : ∀ b, motive (.bool b)) (int : ∀ n, motive (.int n)) (float : ∀ x, motive (.float x))
    (string : ∀ s, motive (.string s))
    (list : ∀ items, (∀ v ∈ items, motive v) → motive (.list items))
    (object : ∀ members, (∀ m ∈ members, motive m.2) → motive (.object members)) (v : Value) :
    motive v :=
  match v with
  | .null => null
  | .bool b => bool b
  | .int n => int n
  | .float x => float x
  | .string s => string s
  | .list items => list items fun w _ =>
    nested_induction null bool int float string list object w
  | .object members => object members fun m _ =>
    nested_induction null bool int float string list object m.2
termination_by v
decreasing_by
  · have := List.sizeOf_lt_of_mem ‹_›
    simp
    omega
  · have := List.sizeOf_lt_of_mem ‹m ∈ members›
    cases m
    simp at *
    omega

/-- What a floating point number is read as: a number, or `null` if it is not finite. -/
def floatLeaf (x : Binary64) : Leaf :=
  if x.isFinite then .number (numberLayout.numeral x) else .null

/-- The value as it is read again. -/
def source : Value → Source
  | null => .leaf .null
  | bool b => .leaf (.bool b)
  | int n => .leaf (.number (.ofInt n))
  | float x => .leaf (floatLeaf x)
  | string s => .leaf (.string s)
  | list items => .list (items.map source) .closed
  | object members => .object (members.map fun m => (.name m.1, m.2.source)) .closed
termination_by v => v
decreasing_by
  · have := List.sizeOf_lt_of_mem ‹_›
    simp
    omega
  · have := List.sizeOf_lt_of_mem ‹m ∈ members›
    cases m
    simp at *
    omega

def tokens : Value → List Token
  | null => [.leaf .null]
  | bool b => [.leaf (.bool b)]
  | int n => [.leaf (.number (.ofInt n))]
  | float x => [.leaf (floatLeaf x)]
  | string s => [.leaf (.string s)]
  | list items => .openList :: ([.comma].intercalate (items.map tokens) ++ [.closeList])
  | object members =>
    .openObject :: ([.comma].intercalate (members.map fun m =>
      .leaf (.string m.1) :: .colon :: m.2.tokens) ++ [.closeObject])
termination_by v => v
decreasing_by
  · have := List.sizeOf_lt_of_mem ‹_›
    simp
    omega
  · have := List.sizeOf_lt_of_mem ‹m ∈ members›
    cases m
    simp at *
    omega

lemma lexes_float (x : Binary64) : Lexes (floatText x).toList [.leaf (floatLeaf x)] := by
  unfold floatText floatLeaf
  split
  · rename_i hx
    rw [Layout.text_eq numberLayout hx]
    exact lexes_numeral (Layout.wellFormed_numeral numberLayout hx) _
  · exact lexes_null

lemma lexes_member (key : String) {text : String} {ts : List Token} (h : Lexes text.toList ts) :
    Lexes (stringText key ++ ": " ++ text).toList (.leaf (.string key) :: .colon :: ts) := by
  intro rest hrest
  have hcolon : ": ".toList ++ (text.toList ++ rest) = ':' :: ' ' :: (text.toList ++ rest) := rfl
  rw [String.toList_append, String.toList_append, List.append_assoc, List.append_assoc, hcolon,
    lexes_string key _ (ends_cons _ (by decide)), tokens_colon, tokens_space (by decide),
    h rest hrest]
  rfl

/-- The text of a value falls into its tokens. -/
theorem lexes_prettyAt (v : Value) (level : ℕ) : Lexes (v.prettyAt level).toList v.tokens := by
  induction v using nested_induction generalizing level with
  | null =>
    simp only [prettyAt, compact, tokens]
    exact lexes_null
  | bool b =>
    simp only [prettyAt, compact, tokens]
    exact lexes_bool b
  | int n =>
    simp only [prettyAt, compact, tokens]
    rw [Numeral.text_ofInt n true]
    exact lexes_numeral (Numeral.wellFormed_ofInt n) true
  | float x =>
    simp only [prettyAt, compact, tokens]
    exact lexes_float x
  | string s =>
    simp only [prettyAt, compact, tokens]
    exact lexes_string s
  | list items ih =>
    rw [prettyAt, tokens]
    exact lexes_bracketed _ _ level items (fun v hv => ih v hv (level + 1)) tokens_openList
      tokens_closeList
  | object members ih =>
    rw [prettyAt, tokens]
    exact lexes_bracketed _ _ level members
      (fun m hm => lexes_member m.1 (ih m hm (level + 1))) tokens_openObject tokens_closeObject

end Value

/-! ### Trees -/

namespace Source

lemma readAfter_comma (fs : List Frame) (done : List Source) (v : Source) {t : Token}
    (ht : t ≠ .closeList) (ts : List Token) :
    readAfter (.list done :: fs) v (.comma :: t :: ts) =
      readValue (.list (v :: done) :: fs) (t :: ts) := by
  rw [readAfter]
  · simp
  · intro ts' h
    exact ht (List.cons.inj h).1

lemma readValue_openList (fs : List Frame) {t : Token} (ht : t ≠ .closeList) (ts : List Token) :
    readValue fs (.openList :: t :: ts) = readValue (.list [] :: fs) (t :: ts) := by
  rw [readValue]
  exact ht

lemma readMember_name (fs : List Frame) (done : List (Key × Source)) (afterComma : Bool)
    (key : String) (ts : List Token) :
    readMember fs done afterComma (.leaf (.string key) :: .colon :: ts) =
      readValue (.object done (.name key) :: fs) ts := by
  rw [readMember]
  rfl

lemma tokens_eq_cons (v : Value) : ∃ t ts, v.tokens = t :: ts ∧ t ≠ .closeList := by
  cases v <;> rw [Value.tokens] <;> exact ⟨_, _, rfl, by simp⟩

section

variable (fs : List Frame)

lemma readValue_items (done : List Source) (v : Value) (items : List Value)
    (h : ∀ w ∈ v :: items, ∀ fs ts, readValue fs (w.tokens ++ ts) = readAfter fs w.source ts)
    (ts : List Token) :
    readValue (.list done :: fs)
        ([.comma].intercalate ((v :: items).map Value.tokens) ++ .closeList :: ts) =
      readAfter fs (.list (done.reverse ++ (v :: items).map Value.source) .closed) ts := by
  induction items generalizing v done with
  | nil =>
    rw [List.map_singleton, List.intercalate_singleton, h v (by simp), readAfter]
    simp
  | cons w items ih =>
    obtain ⟨t, r, ht, hne⟩ := tokens_eq_cons w
    have hrest := ih (v.source :: done) w fun u hu => h u (List.mem_cons_of_mem _ hu)
    have hstart : ∃ r', [.comma].intercalate ((w :: items).map Value.tokens) ++
        Token.closeList :: ts = t :: r' := by
      cases items <;> simp [ht, List.intercalate_cons_cons]
    obtain ⟨r', hr'⟩ := hstart
    rw [List.map_cons, List.map_cons, List.intercalate_cons_cons, List.append_assoc,
      List.append_assoc, h v (by simp), ← List.map_cons, List.singleton_append, hr',
      readAfter_comma _ _ _ hne, ← hr', hrest]
    simp

lemma readMember_members (done : List (Key × Source)) (afterComma : Bool)
    (m : String × Value) (members : List (String × Value))
    (h : ∀ k ∈ m :: members, ∀ fs ts,
      readValue fs (k.2.tokens ++ ts) = readAfter fs k.2.source ts) (ts : List Token) :
    readMember fs done afterComma ([.comma].intercalate ((m :: members).map fun k =>
        .leaf (.string k.1) :: .colon :: k.2.tokens) ++ .closeObject :: ts) =
      readAfter fs (.object (done.reverse ++ (m :: members).map fun k =>
        (.name k.1, k.2.source)) .closed) ts := by
  induction members generalizing m done afterComma with
  | nil =>
    rw [List.map_singleton, List.intercalate_singleton, List.cons_append, List.cons_append,
      readMember_name, h m (by simp), readAfter]
    simp
  | cons k members ih =>
    have hrest := ih ((.name m.1, m.2.source) :: done) true k
      fun l hl => h l (List.mem_cons_of_mem _ hl)
    simp only [List.map_cons] at hrest ⊢
    rw [List.intercalate_cons_cons, List.append_assoc, List.append_assoc, List.cons_append,
      List.cons_append, readMember_name, h m (by simp), List.singleton_append, readAfter, hrest]
    simp

/-- The tokens of a value are put together to the value. -/
theorem readValue_tokens (v : Value) (ts : List Token) :
    readValue fs (v.tokens ++ ts) = readAfter fs v.source ts := by
  induction v using Value.nested_induction generalizing fs ts with
  | null | bool | int | string =>
    rw [Value.tokens, Value.source, List.singleton_append, readValue]
    simp
  | float x =>
    rw [Value.tokens, Value.source, List.singleton_append, Value.floatLeaf]
    split <;> rw [readValue] <;> simp
  | list items ih =>
    rw [Value.tokens, Value.source]
    cases items with
    | nil => simp [readValue]
    | cons v items =>
      have hitems := readValue_items fs [] v items (fun w hw => ih w hw) ts
      obtain ⟨t, r, ht, hne⟩ := tokens_eq_cons v
      have hstart : ∃ r', [.comma].intercalate ((v :: items).map Value.tokens) ++
          Token.closeList :: ts = t :: r' := by
        cases items <;> simp [ht, List.intercalate_cons_cons]
      obtain ⟨r', hr'⟩ := hstart
      rw [List.cons_append, List.append_assoc, List.singleton_append, hr',
        readValue_openList _ hne, ← hr', hitems, List.reverse_nil, List.nil_append]
  | object members ih =>
    rw [Value.tokens, Value.source]
    cases members with
    | nil => simp [readValue]
    | cons m members =>
      have hmembers := readMember_members fs [] false m members (fun k hk => ih k hk) ts
      rw [List.cons_append, List.append_assoc, List.singleton_append, readValue, hmembers,
        List.reverse_nil, List.nil_append]
      intro ts' hclose
      cases members <;> simp [List.intercalate_cons_cons] at hclose

end

/-- **The text of a JSON value is read as the value**, and nothing is left over. -/
theorem ofText_pretty (v : Value) : ofText v.pretty = (v.source, []) := by
  have hlex := v.lexes_prettyAt 0 [] ends_nil
  rw [List.append_nil] at hlex
  rw [ofText, Value.pretty, hlex, readValue_tokens, tokens, readAfter]

end Source

end OpTree.Json
