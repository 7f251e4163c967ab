import OpTree.Proofs.PipelineGrammar
import Mathlib.Algebra.Group.Nat.Even

/-!
Where texts are cut. That a text is balanced can be said without a scan: its quotes come in pairs,
and outside of them no brace is closed that is not open and none stays open. A text is cut exactly
if it is balanced, and then nothing is lost: the pieces with the separators between them are the
text, each piece is balanced, and no separator is left in one but in quotes or braces.
-/

namespace OpTree.Pipeline

open OpTree.Text

/-! ### Quotes and braces -/

/-- The characters in front of which the quotes come in pairs. -/
def unquoted (s : List Char) : List Char :=
  (s.zipIdx.filter fun m => Even ((s.take m.2).count '"')).map Prod.fst

/-- Behind the text one is outside of quotes and of braces. -/
def AtTop (s : List Char) : Prop :=
  Even (s.count '"') ∧ (unquoted s).count '}' = (unquoted s).count '{'

/-- Outside of quotes no brace is closed that is not open. -/
def Covered (s : List Char) : Prop :=
  ∀ t, t <+: s → (unquoted t).count '}' ≤ (unquoted t).count '{'

/-- Quotes are closed, and outside of them braces close what is open and nothing else. -/
structure Balanced (s : List Char) : Prop where
  atTop : AtTop s
  covered : Covered s

/-- A separator stands in the text only in quotes or braces. -/
def Whole (isSeparator : Char → Bool) (s : List Char) : Prop :=
  ∀ u c v, s = u ++ c :: v → isSeparator c = true → ¬ AtTop u

/-- The pieces of a text, cut at separators. -/
structure Cut (isSeparator : Char → Bool) (s : List Char) (ps : List (List Char)) : Prop where
  /-- The pieces with the separators between them are the text. -/
  rejoined : ∃ (p : List Char) (rest : List (Char × List Char)),
    ps = p :: rest.map Prod.snd ∧ s = p ++ rest.flatMap (fun e => e.1 :: e.2) ∧
      ∀ e ∈ rest, isSeparator e.1 = true
  balanced : ∀ p ∈ ps, Balanced p
  whole : ∀ p ∈ ps, Whole isSeparator p

lemma unquoted_concat (s : List Char) (c : Char) :
    unquoted (s ++ [c]) = unquoted s ++ if Even (s.count '"') then [c] else [] := by
  have hfront : s.zipIdx.filter (fun m => decide (Even (((s ++ [c]).take m.2).count '"'))) =
      s.zipIdx.filter fun m => decide (Even ((s.take m.2).count '"')) := by
    refine List.filter_congr fun m hm => ?_
    have hlt : m.2 < s.length := List.snd_lt_of_mem_zipIdx hm
    rw [List.take_append_of_le_length hlt.le]
  have hlast : (s ++ [c]).take (0 + s.length) = s := by rw [Nat.zero_add, List.take_left]
  rw [unquoted, List.zipIdx_append, List.filter_append, hfront, List.map_append, List.zipIdx_cons,
    List.zipIdx_nil, List.filter_cons]
  dsimp only
  rw [hlast]
  split <;> simp_all [unquoted]

lemma count_unquoted_concat (s : List Char) (c d : Char) : (unquoted (s ++ [c])).count d =
    (unquoted s).count d + if Even (s.count '"') ∧ c = d then 1 else 0 := by
  rw [unquoted_concat, List.count_append]
  by_cases hs : Even (s.count '"') <;> simp [hs, List.count_singleton]

lemma covered_nil : Covered [] := by
  intro t ht
  rw [List.prefix_nil.mp ht]
  exact le_rfl

lemma covered_concat {s : List Char} {c : Char} : Covered (s ++ [c]) ↔
    Covered s ∧ (unquoted (s ++ [c])).count '}' ≤ (unquoted (s ++ [c])).count '{' := by
  simp only [Covered, List.prefix_concat_iff]
  constructor
  · intro h
    exact ⟨fun t ht => h t (.inr ht), h _ (.inl rfl)⟩
  · rintro ⟨h, hlast⟩ t (rfl | ht)
    · exact hlast
    · exact h t ht

lemma Covered.of_prefix {s t : List Char} (h : Covered s) (ht : t <+: s) : Covered t :=
  fun u hu => h u (hu.trans ht)

/-! ### The scan -/

namespace Nesting

/-- Where a scan stands behind a text. -/
def reached (s : List Char) : Nesting where
  quoted := !decide (Even (s.count '"'))
  depth := (unquoted s).count '{' - (unquoted s).count '}'

lemma reached_eq_top_iff {s : List Char} (h : Covered s) : reached s = .top ↔ AtTop s := by
  have hle := h s (List.prefix_refl s)
  rw [reached, top, mk.injEq, AtTop, Bool.not_eq_false', decide_eq_true_eq]
  exact and_congr_right fun _ => by omega

/-- A step goes on if a brace that is closed is open, and leads where it should. -/
lemma step?_reached {s : List Char} (h : Covered s) (c : Char) {n : Nesting} :
    (reached s).step? c = some n ↔
      (unquoted (s ++ [c])).count '}' ≤ (unquoted (s ++ [c])).count '{' ∧
        n = reached (s ++ [c]) := by
  have hle := h s (List.prefix_refl s)
  have hquotes : (s ++ [c]).count '"' = s.count '"' + if c = '"' then 1 else 0 := by
    simp [List.count_append, List.count_singleton]
  simp only [reached, hquotes, count_unquoted_concat]
  generalize (unquoted s).count '{' = opened at *
  generalize (unquoted s).count '}' = closed at *
  by_cases heven : Even (s.count '"')
  · by_cases hquote : c = '"'
    · subst hquote
      simp [step?, heven, Nat.even_add_one, hle, eq_comm]
    · by_cases hopen : c = '{'
      · subst hopen
        have hdepth : opened + 1 - closed = opened - closed + 1 := by omega
        simp [step?, heven, hdepth, Nat.le_succ_of_le hle, eq_comm]
      · by_cases hclose : c = '}'
        · subst hclose
          have hdepth : opened - (closed + 1) = opened - closed - 1 := by omega
          have hpos : ¬ opened - closed = 0 ↔ closed + 1 ≤ opened := by omega
          simp [step?, heven, hdepth, hpos, eq_comm]
        · simp [step?, heven, hquote, hopen, hclose, hle, eq_comm]
  -- within quotes braces do not count
  · by_cases hquote : c = '"'
    · subst hquote
      simp [step?, heven, Nat.even_add_one, hle, eq_comm]
    · simp [step?, heven, hquote, hle, eq_comm]

/-- **A scan goes through a text in which braces are covered**, and stands behind it where the
quotes and braces of the text say. -/
theorem scan?_top_eq_some_iff {s : List Char} {n : Nesting} :
    top.scan? s = some n ↔ Covered s ∧ n = reached s := by
  induction s using List.reverseRecOn generalizing n with
  | nil => simpa [scan?, covered_nil] using ⟨fun h => h ▸ rfl, fun h => h ▸ rfl⟩
  | append_singleton s c ih =>
    have hlast (m : Nesting) : m.scan? [c] = m.step? c := Option.bind_fun_some _
    rw [scan?_append, Option.bind_eq_some_iff, covered_concat]
    simp only [ih, hlast]
    constructor
    · rintro ⟨_, ⟨hs, rfl⟩, hstep⟩
      obtain ⟨hle, hn⟩ := (step?_reached hs c).mp hstep
      exact ⟨⟨hs, hle⟩, hn⟩
    · rintro ⟨⟨hs, hle⟩, hn⟩
      exact ⟨_, ⟨hs, rfl⟩, (step?_reached hs c).mpr ⟨hle, hn⟩⟩

lemma scan?_top_eq_top_iff {s : List Char} :
    top.scan? s = some .top ↔ Covered s ∧ AtTop s := by
  rw [scan?_top_eq_some_iff]
  exact and_congr_right fun hs => by rw [← reached_eq_top_iff hs, eq_comm]

end Nesting

lemma isBalanced_eq_true_iff {s : List Char} : isBalanced s = true ↔ Balanced s := by
  rw [isBalanced_iff, Nesting.scan?_top_eq_top_iff]
  exact ⟨fun h => ⟨h.2, h.1⟩, fun h => ⟨h.covered, h.atTop⟩⟩

/-! ### Pieces -/

variable {isSeparator : Char → Bool}

lemma Nesting.pass?_eq_some_iff {n m : Nesting} {s : List Char} :
    n.pass? isSeparator s = some m ↔ n.scan? s = some m ∧
      ∀ u c v, s = u ++ c :: v → isSeparator c = true → n.scan? u ≠ some .top := by
  induction s generalizing n with
  | nil =>
    rw [pass?_nil, scan?]
    exact ⟨fun h => ⟨h, fun u c v hs => by simp at hs⟩, And.left⟩
  | cons d s ih =>
    rw [pass?, scan?]
    by_cases hd : n = .top ∧ isSeparator d = true
    · rw [if_pos hd]
      refine iff_of_false (by simp) fun h => h.2 [] d s rfl hd.2 ?_
      rw [scan?, hd.1]
    · rw [if_neg hd, Option.bind_eq_some_iff, Option.bind_eq_some_iff]
      constructor
      · rintro ⟨k, hk, h⟩
        obtain ⟨hscan, hnone⟩ := ih.mp h
        refine ⟨⟨k, hk, hscan⟩, fun u c v hs hc => ?_⟩
        cases u with
        | nil =>
          obtain ⟨rfl, rfl⟩ := List.cons.inj hs
          exact fun hn => hd ⟨Option.some.inj hn, hc⟩
        | cons e u =>
          obtain ⟨rfl, htail⟩ := List.cons.inj hs
          rw [scan?, hk, Option.bind_some]
          exact hnone u c v htail hc
      · rintro ⟨⟨k, hk, hscan⟩, hnone⟩
        refine ⟨k, hk, ih.mpr ⟨hscan, fun u c v hs hc => ?_⟩⟩
        have h := hnone (d :: u) c v (congrArg (d :: ·) hs) hc
        rwa [scan?, hk, Option.bind_some] at h

/-- What is passed from the top to the top are the pieces. -/
lemma pass?_top_iff {p : List Char} : Nesting.top.pass? isSeparator p = some .top ↔
    Balanced p ∧ Whole isSeparator p := by
  rw [Nesting.pass?_eq_some_iff, ← isBalanced_iff, isBalanced_eq_true_iff]
  refine and_congr_right fun hp => forall₄_congr fun u c v hs => forall_congr' fun _ => ?_
  have hu : Covered u := hp.covered.of_prefix ⟨c :: v, hs.symm⟩
  rw [ne_eq, Nesting.scan?_top_eq_top_iff, not_and]
  exact ⟨fun h => h hu, fun h _ => h⟩

lemma exists_of_splitWithin {n : Nesting} {s : List Char} {ps : List (List Char)}
    (h : splitWithin isSeparator n s = .ok ps) :
    ∃ (p : List Char) (rest : List (Char × List Char)),
      ps = p :: rest.map Prod.snd ∧ s = p ++ rest.flatMap (fun e => e.1 :: e.2) ∧
        n.pass? isSeparator p = some .top ∧
        ∀ e ∈ rest, isSeparator e.1 = true ∧ Nesting.top.pass? isSeparator e.2 = some .top := by
  induction s generalizing n ps with
  | nil =>
    rw [splitWithin] at h
    split at h <;> cases h
    rename_i hn
    exact ⟨[], [], rfl, rfl, congrArg some hn, by simp⟩
  | cons c s ih =>
    rw [splitWithin] at h
    split at h
    · rename_i hc
      obtain ⟨qs, hqs, rfl⟩ := map_eq_ok h
      obtain ⟨p, rest, rfl, hs, hp, hrest⟩ := ih hqs
      rw [hc.1] at hp
      refine ⟨[], (c, p) :: rest, rfl, ?_, congrArg some hc.1, ?_⟩
      · rw [hs, List.flatMap_cons, List.nil_append, List.cons_append]
      · exact List.forall_mem_cons.mpr ⟨⟨hc.2, hp⟩, hrest⟩
    · rename_i hc
      cases hstep : n.step? c with
      | none =>
        rw [hstep] at h
        cases h
      | some m =>
        rw [hstep] at h
        obtain ⟨qs, hqs, rfl⟩ := map_eq_ok h
        obtain ⟨p, rest, rfl, hs, hp, hrest⟩ := ih hqs
        refine ⟨c :: p, rest, rfl, by rw [hs, List.cons_append], ?_, hrest⟩
        rw [Nesting.pass?, if_neg hc, hstep, Option.bind_some, hp]

lemma splitTop_rejoined {p : List Char} {rest : List (Char × List Char)}
    (hp : Nesting.top.pass? isSeparator p = some .top)
    (hrest : ∀ e ∈ rest, isSeparator e.1 = true ∧
      Nesting.top.pass? isSeparator e.2 = some .top) :
    splitTop isSeparator (p ++ rest.flatMap fun e => e.1 :: e.2) =
      .ok (p :: rest.map Prod.snd) := by
  induction rest generalizing p with
  | nil =>
    rw [List.flatMap_nil, List.append_nil]
    exact splitTop_single hp
  | cons e rest ih =>
    obtain ⟨⟨hc, hq⟩, hrest⟩ := List.forall_mem_cons.mp hrest
    rw [List.flatMap_cons, List.cons_append, splitTop_append_cons hp hc, ih hq hrest]
    rfl

/-- **A split cuts a text into its pieces**, and into nothing else. -/
theorem splitTop_eq_ok_iff_cut {s : List Char} {ps : List (List Char)} :
    splitTop isSeparator s = .ok ps ↔ Cut isSeparator s ps := by
  constructor
  · intro h
    obtain ⟨p, rest, rfl, hs, hp, hrest⟩ := exists_of_splitWithin h
    have hpieces : ∀ q ∈ p :: rest.map Prod.snd, Balanced q ∧ Whole isSeparator q := by
      rw [List.forall_mem_cons, List.forall_mem_map]
      exact ⟨pass?_top_iff.mp hp, fun e he => pass?_top_iff.mp (hrest e he).2⟩
    exact ⟨⟨p, rest, rfl, hs, fun e he => (hrest e he).1⟩, fun q hq => (hpieces q hq).1,
      fun q hq => (hpieces q hq).2⟩
  · rintro ⟨⟨p, rest, rfl, rfl, hsep⟩, hbalanced, hwhole⟩
    have hpass : ∀ q ∈ p :: rest.map Prod.snd, Nesting.top.pass? isSeparator q = some .top :=
      fun q hq => pass?_top_iff.mpr ⟨hbalanced q hq, hwhole q hq⟩
    exact splitTop_rejoined (hpass p (.head _)) fun e he =>
      ⟨hsep e he, hpass e.2 (.tail _ (List.mem_map_of_mem he))⟩

/-! ### Entries and options -/

/-- What texts are cut at: a pipeline into entries, and what stands in braces into options. -/
inductive Separator
  | comma
  | blank

namespace Separator

/-- The characters that separate. -/
def test : Separator → Char → Bool
  | comma => (· == ',')
  | blank => isBlank

lemma not_isBracket (k : Separator) (c : Char) (hc : k.test c = true) : isBracket c = false := by
  cases k with
  | comma => exact isBracket_of_comma hc
  | blank => exact not_isBracket_of_isBlank hc

end Separator

/-- The pieces of a text between separators, its imbalance, or that a piece is blank where this is
refused. -/
def split (k : Separator) (refuseBlank : Bool) (s : List Char) :
    Except Malformed (List (List Char)) := do
  let ps ← splitBalanced k.test s
  if refuseBlank && ps.any isBlankText then throw (.emptyEntry (.ofList s))
  return ps

lemma split_comma (s : List Char) : split .comma true s = splitEntries s := by
  simp only [split, splitEntries, Bool.true_and]
  rfl

lemma split_blank (s : List Char) : split .blank false s = splitBalanced isBlank s := by
  simp only [split, Bool.false_and, Bool.false_eq_true, if_false]
  exact bind_pure _

lemma split_eq_ok_iff {k : Separator} {refuseBlank : Bool} {s : List Char}
    {ps : List (List Char)} : split k refuseBlank s = .ok ps ↔
      Cut k.test s ps ∧ (refuseBlank = true → ∀ p ∈ ps, isBlankText p = false) := by
  have hcut (qs : List (List Char)) : splitBalanced k.test s = .ok qs ↔ Cut k.test s qs :=
    mapError_eq_ok_iff.trans splitTop_eq_ok_iff_cut
  have hblank (qs : List (List Char)) : (refuseBlank && qs.any isBlankText) = false ↔
      (refuseBlank = true → ∀ p ∈ qs, isBlankText p = false) := by
    cases refuseBlank <;> simp
  simp only [split, bind_eq_ok_iff, hcut]
  constructor
  · rintro ⟨qs, hqs, h⟩
    split at h
    · cases h
    · rename_i hnone
      obtain rfl := Except.ok.inj h
      exact ⟨hqs, (hblank _).mp (Bool.eq_false_iff.mpr hnone)⟩
  · rintro ⟨hps, hnone⟩
    refine ⟨ps, hps, ?_⟩
    rw [(hblank ps).mpr hnone]
    rfl

/-- A text that is balanced can be cut in one way, any other in none. -/
lemma cut_iff (k : Separator) {s : List Char} {ps : List (List Char)} :
    Cut k.test s ps ↔ Balanced s ∧ ps = pieces k.test s := by
  rw [← splitTop_eq_ok_iff_cut, splitTop_eq_ok_iff k.not_isBracket, isBalanced_eq_true_iff]

/-- **To split a text loses nothing and cuts only where it may.** With either separator it gives the
pieces into which the text is cut, none of them blank if this is refused; and it fails exactly if
the text is not balanced or, where this is refused, a piece is blank. Pipelines are split at commas
and have no blank pieces, options are split at blanks. -/
theorem split_exact (k : Separator) (refuseBlank : Bool) (s : List Char) :
    (∀ ps, split k refuseBlank s = .ok ps ↔
      Cut k.test s ps ∧ (refuseBlank = true → ∀ p ∈ ps, isBlankText p = false)) ∧
    ((∃ e, split k refuseBlank s = .error e) ↔
      ¬ Balanced s ∨
        refuseBlank = true ∧ ∃ ps, Cut k.test s ps ∧ ∃ p ∈ ps, isBlankText p = true) ∧
    split .comma true s = splitEntries s ∧ split .blank false s = splitBalanced isBlank s := by
  refine ⟨fun ps => split_eq_ok_iff, ?_, split_comma s, split_blank s⟩
  have herror : (∃ e, split k refuseBlank s = .error e) ↔
      ¬ ∃ ps, split k refuseBlank s = .ok ps := by
    cases split k refuseBlank s <;> simp
  simp only [herror, split_eq_ok_iff, cut_iff]
  by_cases hs : Balanced s
  · simp [hs]
  · simp [hs]

/-- Commas in braces and in quotes, and characters of more than one byte in front of them. -/
example : (split .comma true "a\x7bé,\x7d,\"ü,\x7b\"".toList).map (List.map String.ofList) =
    .ok ["a\x7bé,\x7d", "\"ü,\x7b\""] := by
  decide +kernel

end OpTree.Pipeline
