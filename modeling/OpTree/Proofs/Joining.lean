import OpTree.Proofs.PipelineGrammar
import OpTree.Pipeline.Registry

/-!
Pipelines are joined by commas. A pipeline leaves the scan of its text outside of quotes and
braces, whatever it holds, so that a comma behind it divides its entries from those that follow.
-/

namespace OpTree.Pipeline

open OpTree.Text

lemma toList_join (a b : String) : (a ++ "," ++ b).toList = a.toList ++ ',' :: b.toList := by
  have hcomma : ",".toList = [','] := by decide
  rw [String.toList_append, String.toList_append, hcomma, List.append_assoc, List.singleton_append]

section Texts

variable {s t : List Char} (hs : isBlankText s = false) (ht : isBlankText t = false)

include hs ht

lemma grammatical_join (hgs : Grammatical s) (hgt : Grammatical t) :
    Grammatical (s ++ ',' :: t) ∧
      pieces (· == ',') (s ++ ',' :: t) = pieces (· == ',') s ++ pieces (· == ',') t := by
  have hbracket : isBracket ',' = false := by decide
  rcases hgs with hblank | ⟨hbalanced, hall⟩
  · rw [hs] at hblank
    cases hblank
  · have hpieces : pieces (· == ',') (s ++ ',' :: t) =
        pieces (· == ',') s ++ pieces (· == ',') t :=
      pieces_append_cons hbalanced hbracket rfl t
    rcases hgt with hblank | ⟨hbalanced', hall'⟩
    · rw [ht] at hblank
      cases hblank
    · refine ⟨.inr ⟨?_, fun p hp => ?_⟩, hpieces⟩
      · rw [isBalanced_append_cons hbalanced hbracket, hbalanced']
      · rw [hpieces] at hp
        exact (List.mem_append.mp hp).elim (hall p) (hall' p)

lemma parseEntries_join {x y : List Entry} (hx : parseEntries s = .ok x)
    (hy : parseEntries t = .ok y) : parseEntries (s ++ ',' :: t) = .ok (x ++ y) := by
  obtain ⟨hgs, hrs⟩ := parseEntries_eq_ok_iff.mp hx
  obtain ⟨hgt, hrt⟩ := parseEntries_eq_ok_iff.mp hy
  obtain ⟨hgrammatical, hpieces⟩ := grammatical_join hs ht hgs hgt
  have hblank : isBlankText (s ++ ',' :: t) = false := by
    rw [isBlankText] at hs ⊢
    rw [List.all_append, hs, Bool.false_and]
  refine parseEntries_eq_ok_iff.mpr ⟨hgrammatical, .entries hblank ?_⟩
  rw [hpieces]
  cases hrs with
  | blank h =>
    rw [hs] at h
    cases h
  | entries _ hes =>
    cases hrt with
    | blank h =>
      rw [ht] at h
      cases h
    | entries _ hes' => exact List.rel_append hes hes'

end Texts

namespace Registry

variable {r : Registry} {text : String}

lemma parsePipeline_eq_ok_iff {passes : List Pass} :
    r.parsePipeline text = .ok passes ↔
      ∃ es, Entry.parse text = .ok es ∧ es.mapM r.create = .ok passes := by
  rw [parsePipeline, bind_eq_ok_iff]

lemma populate_eq_ok_iff {ε : Type} {m m' : Manager ε} :
    r.populate m text = .ok m' ↔
      ∃ passes, r.parsePipeline text = .ok passes ∧ m.addAll passes = m' := by
  rw [populate]
  cases r.parsePipeline text <;> simp

end Registry

/-- **Pipelines compose by commas.** The entries of two texts that are not blank, joined by a
comma, are the entries of the first and then those of the second. So a manager that gets the passes
of one and then those of the other is left as by the joined text, which has a pass for each entry
if the two have. -/
theorem join_comma {a b : String} (ha : isBlankText a.toList = false)
    (hb : isBlankText b.toList = false) :
    (∀ x y, Entry.parse a = .ok x → Entry.parse b = .ok y →
      Entry.parse (a ++ "," ++ b) = .ok (x ++ y)) ∧
    ∀ (ε : Type) (r : Registry) (m m₁ m₂ : Manager ε), r.populate m a = .ok m₁ →
      r.populate m₁ b = .ok m₂ → r.populate m (a ++ "," ++ b) = .ok m₂ := by
  have hentries : ∀ x y, Entry.parse a = .ok x → Entry.parse b = .ok y →
      Entry.parse (a ++ "," ++ b) = .ok (x ++ y) := by
    intro x y hx hy
    rw [Entry.parse_eq_ok_iff, toList_join]
    exact parseEntries_join ha hb (Entry.parse_eq_ok_iff.mp hx) (Entry.parse_eq_ok_iff.mp hy)
  refine ⟨hentries, fun ε r m m₁ m₂ h₁ h₂ => ?_⟩
  obtain ⟨ps, hps, rfl⟩ := Registry.populate_eq_ok_iff.mp h₁
  obtain ⟨qs, hqs, rfl⟩ := Registry.populate_eq_ok_iff.mp h₂
  obtain ⟨x, hx, hps⟩ := Registry.parsePipeline_eq_ok_iff.mp hps
  obtain ⟨y, hy, hqs⟩ := Registry.parsePipeline_eq_ok_iff.mp hqs
  have hjoined : r.parsePipeline (a ++ "," ++ b) = .ok (ps ++ qs) := by
    refine Registry.parsePipeline_eq_ok_iff.mpr ⟨x ++ y, hentries x y hx hy, ?_⟩
    rw [List.mapM_append, hps, hqs]
    rfl
  refine Registry.populate_eq_ok_iff.mpr ⟨ps ++ qs, hjoined, ?_⟩
  rw [Manager.addAll, Manager.addAll, Manager.addAll, List.append_assoc]

/-- Two texts with commas, quotes and braces of their own, joined and taken one after the other. -/
theorem join_comma_crowded :
    let a := "print-ir\x7blabel=\"a,\x7b\"\x7d"
    let b := " strip-debuginfo\x7b\x7d , print-ir"
    isBlankText a.toList = false ∧ isBlankText b.toList = false ∧
      Entry.parse (a ++ "," ++ b) =
        .ok [⟨"print-ir", [("label", "a,\x7b")]⟩, ⟨"strip-debuginfo", []⟩, ⟨"print-ir", []⟩] ∧
      ∃ m₁ m₂ : Manager Empty, Registry.builtin.populate {} a = .ok m₁ ∧
        Registry.builtin.populate m₁ b = .ok m₂ ∧
        Registry.builtin.populate {} (a ++ "," ++ b) = .ok m₂ ∧
        m₂.passNames = ["print-ir", "strip-debuginfo", "print-ir"] := by
  intro a b
  have ha : isBlankText a.toList = false := by decide +kernel
  have hb : isBlankText b.toList = false := by decide +kernel
  have hx : Entry.parse a = .ok [⟨"print-ir", [("label", "a,\x7b")]⟩] := by decide +kernel
  have hy : Entry.parse b = .ok [⟨"strip-debuginfo", []⟩, ⟨"print-ir", []⟩] := by decide +kernel
  obtain ⟨hparse, hpopulate⟩ := join_comma ha hb
  have h₁ : Registry.builtin.parsePipeline a =
      .ok [.printIr { options := { label := "a,\x7b" } }] :=
    Registry.parsePipeline_eq_ok_iff.mpr ⟨_, hx, rfl⟩
  have h₂ : Registry.builtin.parsePipeline b = .ok [.stripDebugInfo, .printIr {}] :=
    Registry.parsePipeline_eq_ok_iff.mpr ⟨_, hy, rfl⟩
  have hm₁ (m : Manager Empty) := Registry.populate_eq_ok_iff (m := m).mpr ⟨_, h₁, rfl⟩
  have hm₂ (m : Manager Empty) := Registry.populate_eq_ok_iff (m := m).mpr ⟨_, h₂, rfl⟩
  exact ⟨ha, hb, hparse _ _ hx hy, _, _, hm₁ _, hm₂ _,
    hpopulate _ _ _ _ _ (hm₁ _) (hm₂ _), rfl⟩

end OpTree.Pipeline
