import OpTree.Proofs.Controls
import OpTree.Proofs.Tree

/-!
How many lines a program is printed on. The layout decides it, except where a name is printed as
it is: attribute names, names of symbols and names in locations are neither quoted nor escaped,
and a line end in one of them is a line end of the dump.
-/

namespace OpTree

open OpTree.IR OpTree.Text

namespace Text

def lineEnds (s : String) : ℕ := s.toList.count '\n'

/-- How many line ends some texts hold together. -/
def allLineEnds (l : List String) : ℕ := (l.map lineEnds).sum

lemma isControl_lineEnd : IsControl '\n' := by decide

lemma lineEnds_eq_zero {s : String} : lineEnds s = 0 ↔ '\n' ∉ s.toList := countOf_eq_zero '\n'

lemma ControlFree.lineEnds_eq_zero {s : String} (hs : ControlFree s) : lineEnds s = 0 :=
  hs.countOf_eq_zero isControl_lineEnd

@[simp] lemma lineEnds_append (s t : String) : lineEnds (s ++ t) = lineEnds s + lineEnds t :=
  countOf_append '\n' s t

@[simp] lemma allLineEnds_append (l l' : List String) :
    allLineEnds (l ++ l') = allLineEnds l + allLineEnds l' := countAll_append '\n' l l'

lemma allLineEnds_flatMap {α : Type} (l : List α) (g : α → List String) :
    allLineEnds (l.flatMap g) = (l.map fun a => allLineEnds (g a)).sum := countAll_flatMap '\n' l g

lemma allLineEnds_eq_zero {l : List String} : allLineEnds l = 0 ↔ ∀ s ∈ l, '\n' ∉ s.toList :=
  countAll_eq_zero '\n'

lemma lineEnds_join (l : List String) : lineEnds (String.join l) = allLineEnds l :=
  countOf_join '\n' l

lemma lineEnds_commaList (l : List String) : lineEnds (Ty.commaList l) = allLineEnds l :=
  countOf_commaList isControl_lineEnd l

/-- **A quoted text is on one line**, whatever it quotes. -/
theorem lineEnds_quote (s : String) : lineEnds (quote s) = 0 :=
  (controlFree_quote s).lineEnds_eq_zero

end Text

lemma allLineEnds_walk (g : Operation → List String) (op : Operation) :
    allLineEnds (op.walk.flatMap g) = allLineEnds (g op) +
      (op.regions.map fun r => (r.blocks.map fun b =>
        (b.operations.map fun c => allLineEnds (c.walk.flatMap g)).sum).sum).sum := by
  rw [Operation.walk, List.flatMap_cons, allLineEnds_append]
  simp only [List.flatMap_assoc, allLineEnds_flatMap]

namespace Print

/-! ### Coloured texts -/

lemma count_reopen {start : List Char} (h : '\n' ∉ start) (s : List Char) :
    (reopen start s).count '\n' = s.count '\n' := by
  fun_induction reopen start s with
  | case1 r ih =>
    have hreset : '\n' ∉ reset := by decide
    simp [List.count_eq_zero.mpr h, List.count_eq_zero.mpr hreset, ih]
  | case2 c r _ ih => rw [List.count_cons, List.count_cons, ih]
  | case3 => rfl

lemma lineEnds_paint (colors : Bool) (c : Color) (s : String) :
    lineEnds (paint colors c s) = lineEnds s := by
  have hcode : '\n' ∉ c.code.toList := by cases c <;> decide
  have hstart : '\n' ∉ ['\x1b', '['] ++ c.code.toList ++ ['m'] := by simp [hcode]
  have hreset : '\n' ∉ reset := by decide
  unfold paint
  split
  · rw [lineEnds, styled, String.toList_ofList, List.count_append, List.count_append,
      count_reopen hstart, List.count_eq_zero.mpr hstart, List.count_eq_zero.mpr hreset]
    simp [lineEnds]
  · rfl

/-! ### Operations on their lines -/

/-- What a session calls values and users is on one line. -/
structure Session.Tame (s : Session) : Prop where
  values : ∀ v, lineEnds (s.names.name v) = 0
  users : ∀ u ∈ s.uses, ∀ op, ∀ t ∈ u.users op, lineEnds t = 0

lemma tame_ofOperation (ansi : Bool) (f : Flags) (root : Operation) :
    (Session.ofOperation ansi f root).Tame where
  values v := (controlFree_name_ofOperation root v).lineEnds_eq_zero
  users := by
    intro u hu op t ht
    have huses : u = .ofOperation root (.ofOperation root) := by
      unfold Session.ofOperation at hu
      split at hu
      · exact (Option.mem_some_iff.mp hu).symm
      · cases hu
    subst huses
    exact (controlFree_of_mem_users t ht).lineEnds_eq_zero

section

variable {s : Session} (hs : s.Tame)

include hs

lemma lineEnds_nameList (vs : List Value) : lineEnds (s.nameList vs) = 0 :=
  countOf_nameList isControl_lineEnd hs.values vs

lemma lineEnds_head (op : Operation) : lineEnds (s.head op) = 0 := by
  have hresults :
      lineEnds (if op.results.isEmpty then "" else s.nameList op.results ++ " = ") = 0 := by
    split
    · rfl
    · rw [lineEnds_append, lineEnds_nameList hs]
      rfl
  unfold Session.head
  simp only [lineEnds_append, hresults, lineEnds_paint, lineEnds_quote, lineEnds_nameList hs]
  rfl

lemma lineEnds_usersComment (op : Operation) : lineEnds (s.usersComment op) = 0 := by
  unfold Session.usersComment
  split
  · rfl
  · rename_i u hu
    dsimp only
    split
    · rfl
    · have husers : allLineEnds (u.users op) = 0 :=
        allLineEnds_eq_zero.mpr fun t ht => lineEnds_eq_zero.mp (hs.users u hu op t ht)
      rw [lineEnds_paint, lineEnds_append, lineEnds_commaList, husers]
      rfl

lemma lineEnds_tail (op : Operation) :
    lineEnds (s.tail op) = allLineEnds (op.bareNames s.flags) := by
  have hattributes : lineEnds (if (attributesText s.flags op).isEmpty then ""
      else " " ++ attributesText s.flags op) =
      allLineEnds (op.attributes.entries.flatMap fun e => e.1 :: e.2.symbols) :=
    countOf_attributesPart isControl_lineEnd s.flags op
  have hlocation : lineEnds (s.locationText op) =
      allLineEnds (if s.flags.debugInfo then op.location.names else []) :=
    countOf_locationText isControl_lineEnd s op
  have hsignature : lineEnds (signature op).text = 0 :=
    (signature op).controlFree_text.lineEnds_eq_zero
  unfold Session.tail Operation.bareNames
  simp only [lineEnds_append, allLineEnds_append, hattributes, hlocation, hsignature,
    lineEnds_usersComment hs]
  simp [lineEnds]

lemma lineEnds_labelText (index : ℕ) (b : Block) : lineEnds (s.labelText index b) = 0 :=
  countOf_labelText isControl_lineEnd hs.values index b

end

/-! ### The number of lines -/

/-- How many blocks of a region have a label: those that are not its first or have arguments. -/
def labels (r : Region) : ℕ := r.blocks.zipIdx.countP fun p => p.2 ≠ 0 || !p.1.arguments.isEmpty

/-- How many lines the layout has for an operation: one, if it has no regions or they are not
shown; else an opening line, a line behind each region, the labels of the blocks, and the lines of
the operations in it. -/
def lineCount (f : Flags) (op : Operation) : ℕ :=
  if op.regions.isEmpty || f.skipRegions then 1
  else 1 + op.regions.length + (op.regions.map fun r =>
    labels r + (r.blocks.map fun b => (b.operations.map (lineCount f)).sum).sum).sum
termination_by op
decreasing_by exact Operation.sizeOf_lt ‹_› ‹_› ‹_›

/-- The operations that are printed with an operation. -/
def printed (f : Flags) (op : Operation) : List Operation :=
  if f.skipRegions then [op] else op.walk

/-- How many line ends the text of some lines has, each with its own at the end. -/
def written (ls : List Line) : ℕ := (ls.map fun l => lineEnds l.text + 1).sum

@[simp] lemma written_nil : written [] = 0 := rfl

@[simp] lemma written_cons (l : Line) (ls : List Line) :
    written (l :: ls) = lineEnds l.text + 1 + written ls := rfl

@[simp] lemma written_append (ls ls' : List Line) :
    written (ls ++ ls') = written ls + written ls' := by
  unfold written
  rw [List.map_append, List.sum_append]

lemma written_flatMap {α : Type} (l : List α) (g : α → List Line) :
    written (l.flatMap g) = (l.map fun a => written (g a)).sum := by
  induction l with
  | nil => rfl
  | cons a l ih => rw [List.flatMap_cons, written_append, ih, List.map_cons, List.sum_cons]

lemma written_separated (sep : Line) (hsep : lineEnds sep.text = 0) {ls : List (List Line)}
    (hls : ls ≠ []) :
    written ([sep].intercalate ls) + 1 = ls.length + (ls.map written).sum := by
  obtain ⟨l, r, rfl⟩ := List.exists_cons_of_ne_nil hls
  have hrest : written (r.flatMap fun l => [sep] ++ l) = r.length + (r.map written).sum := by
    induction r with
    | nil => rfl
    | cons l r ih =>
      rw [List.flatMap_cons, written_append, ih (by simp), written_append, written_cons, hsep,
        written_nil, List.map_cons, List.sum_cons, List.length_cons]
      omega
  rw [intercalate_cons, written_append, hrest, List.map_cons, List.sum_cons, List.length_cons]
  omega

def Session.regionLines (s : Session) (level : ℕ) (r : Region) : List Line :=
  s.blockLines level 0 (r.blocks.map fun b => (b, b.operations.flatMap (s.lines (level + 1))))

lemma Session.labelLines_eq (s : Session) (level index : ℕ) (b : Block) :
    s.labelLines level index b =
      if index ≠ 0 || !b.arguments.isEmpty then [⟨level, .label, s.labelText index b⟩] else [] := by
  unfold Session.labelLines
  by_cases h : index = 0 ∧ b.arguments.isEmpty
  · rw [if_pos h, if_neg (by simp [h.1, h.2])]
  · have hlabel : (index ≠ 0 || !b.arguments.isEmpty) = true := by
      simpa [or_iff_not_imp_left] using h
    rw [if_neg h, if_pos hlabel]

lemma Session.lines_of_regions {s : Session} (hs : s.flags.skipRegions = false) (level : ℕ)
    {op : Operation} (hop : op.regions ≠ []) :
    s.lines level op = ⟨level, .opening, s.head op ++ " (\x7b"⟩ ::
      ([⟨level, .separator, "\x7d, \x7b"⟩].intercalate (op.regions.map (s.regionLines level)) ++
        [⟨level, .closing, "\x7d)" ++ s.tail op⟩]) := by
  rw [Session.lines, if_neg (by simpa using hop), if_neg (by simp [hs])]
  rfl

section

variable {s : Session} (hs : s.Tame)

include hs

lemma written_labelLines (level index : ℕ) (b : Block) : written (s.labelLines level index b) =
    if index ≠ 0 || !b.arguments.isEmpty then 1 else 0 := by
  rw [Session.labelLines_eq]
  split
  · rw [written_cons, lineEnds_labelText hs]
    rfl
  · rfl

lemma written_blockLines (level index : ℕ) (g : Block → List Line) (bs : List Block) :
    written (s.blockLines level index (bs.map fun b => (b, g b))) =
      ((bs.zipIdx index).countP fun p => p.2 ≠ 0 || !p.1.arguments.isEmpty) +
        (bs.map fun b => written (g b)).sum := by
  induction bs generalizing index with
  | nil => rfl
  | cons b bs ih =>
    rw [List.map_cons, Session.blockLines, written_append, written_append, ih,
      written_labelLines hs, List.zipIdx_cons, List.countP_cons, List.map_cons, List.sum_cons]
    dsimp only
    omega

lemma written_regionLines {level : ℕ} {r : Region} {count names : Operation → ℕ}
    (h : ∀ b ∈ r.blocks, ∀ c ∈ b.operations,
      written (s.lines (level + 1) c) = count c + names c) :
    written (s.regionLines level r) =
      labels r + (r.blocks.map fun b => (b.operations.map count).sum).sum +
        (r.blocks.map fun b => (b.operations.map names).sum).sum := by
  have hblock : ∀ b ∈ r.blocks, written (b.operations.flatMap (s.lines (level + 1))) =
      (b.operations.map count).sum + (b.operations.map names).sum := by
    intro b hb
    rw [written_flatMap, ← List.sum_map_add]
    exact congrArg List.sum (List.map_congr_left (h b hb))
  rw [Session.regionLines, written_blockLines hs, List.map_congr_left hblock, List.sum_map_add,
    labels]
  omega

/-- Each line has one line end of its own, and each name that is printed as it is adds those that
it holds. -/
theorem written_lines (level : ℕ) (op : Operation) : written (s.lines level op) =
    lineCount s.flags op +
      allLineEnds ((printed s.flags op).flatMap (Operation.bareNames s.flags)) := by
  induction op using Operation.nested_induction generalizing level with
  | nest op ih =>
    have hlast (l : Line) (htext : lineEnds l.text = lineEnds (s.tail op)) :
        written [l] = 1 + allLineEnds (op.bareNames s.flags) := by
      rw [written_cons, htext, lineEnds_tail hs, written_nil]
      omega
    unfold lineCount
    by_cases hregions : op.regions.isEmpty
    · have hprinted : printed s.flags op = [op] := by
        unfold printed
        rw [Operation.walk, List.isEmpty_iff.mp hregions]
        simp
      rw [Session.lines, if_pos hregions, hregions, Bool.true_or, if_pos rfl, hprinted,
        List.flatMap_singleton]
      exact hlast _ (by rw [lineEnds_append, lineEnds_head hs, Nat.zero_add])
    by_cases hskip : s.flags.skipRegions
    · have hdots : allLineEnds (op.regions.map fun _ => "\x7b...\x7d") = 0 := by
        rw [allLineEnds_eq_zero, List.forall_mem_map]
        exact fun _ _ => by decide
      have hprinted : printed s.flags op = [op] := if_pos hskip
      rw [Session.lines, if_neg hregions, if_pos hskip, hskip, Bool.or_true, if_pos rfl, hprinted,
        List.flatMap_singleton]
      refine hlast _ ?_
      simp only [lineEnds_append, lineEnds_head hs, lineEnds_commaList, hdots]
      simp [lineEnds]
    · have hprinted : printed s.flags op = op.walk := if_neg hskip
      have hregion : ∀ r ∈ op.regions, written (s.regionLines level r) = _ := fun r hr =>
        written_regionLines hs fun b hb c hc => by rw [ih r hr b hb c hc, printed, if_neg hskip]
      have hne : op.regions.map (s.regionLines level) ≠ [] := by simpa using hregions
      have hbody := written_separated ⟨level, .separator, "\x7d, \x7b"⟩ (by simp [lineEnds]) hne
      rw [List.length_map, List.map_map, Function.comp_def, List.map_congr_left hregion,
        List.sum_map_add] at hbody
      have hopening : lineEnds (s.head op ++ " (\x7b") = 0 := by
        rw [lineEnds_append, lineEnds_head hs]
        rfl
      have hclosing := hlast ⟨level, .closing, "\x7d)" ++ s.tail op⟩ (by simp [lineEnds])
      rw [Session.lines_of_regions (by simpa using hskip) level (by simpa using hregions),
        if_neg (by simp [hregions, hskip]), hprinted, allLineEnds_walk, written_cons,
        written_append, hopening, hclosing]
      omega

end

/-! ### The dump as a whole -/

lemma exists_lines_eq_concat (s : Session) (level : ℕ) (op : Operation) :
    ∃ ls l, s.lines level op = ls ++ [l] := by
  unfold Session.lines
  split
  · exact ⟨[], _, rfl⟩
  · split
    · exact ⟨[], _, rfl⟩
    · exact ⟨_ :: _, _, rfl⟩

lemma lineEnds_render (i : IndentStyle) (l : Line) :
    lineEnds (l.render i.unit) = lineEnds l.text + 1 := by
  have hunit : '\n' ∉ i.unit.toList := by
    cases i with
    | spaces n => simp [IndentStyle.unit]
    | tabs => decide
  have hmargin : allLineEnds (List.replicate l.level i.unit) = 0 := by
    rw [allLineEnds_eq_zero]
    intro t ht
    rwa [List.eq_of_mem_replicate ht]
  rw [Line.render, lineEnds_append, lineEnds_append, lineEnds_join, hmargin]
  simp [lineEnds]

lemma lineEnds_text_eq (ansi : Bool) (f : Flags) (op : Operation) :
    lineEnds (text ansi f op) =
      lineCount f op + allLineEnds ((printed f op).flatMap (Operation.bareNames f)) := by
  have hlines := written_lines (tame_ofOperation ansi f op) 0 op
  have hrender : allLineEnds ((lines ansi f op).map (Line.render f.indent.unit)) =
      written (lines ansi f op) := by
    rw [allLineEnds, List.map_map, written]
    exact congrArg List.sum (List.map_congr_left fun l _ => lineEnds_render f.indent l)
  rw [text, lineEnds_join, hrender]
  exact hlines

/-- **A dump ends with a line end and has the lines of its layout**, and one more for each line end
in a name that is printed as it is. So it has just those lines exactly if no such name of an
operation that is printed holds a line end. -/
theorem lineEnds_text_layout (ansi : Bool) (f : Flags) (op : Operation) :
    (text ansi f op).toList.getLast? = some '\n' ∧
      lineEnds (text ansi f op) =
        lineCount f op + allLineEnds ((printed f op).flatMap (Operation.bareNames f)) ∧
      (lineEnds (text ansi f op) = lineCount f op ↔
        ∀ o ∈ printed f op, ∀ s ∈ o.bareNames f, '\n' ∉ s.toList) := by
  refine ⟨?_, lineEnds_text_eq ansi f op, ?_⟩
  · obtain ⟨ls, l, hls⟩ := exists_lines_eq_concat (.ofOperation ansi f op) 0 op
    rw [text, lines, hls, String.toList_join, List.map_append, List.flatMap_append]
    simp [Line.render]
  · rw [lineEnds_text_eq, Nat.add_eq_left, allLineEnds_eq_zero]
    simp only [List.mem_flatMap, forall_exists_index, and_imp]
    exact ⟨fun h o ho s hs => h s o ho hs, fun h s o ho hs => h o ho s hs⟩

/-- A program with a line end in the name of its location. -/
def splitLocated : Operation := { name := "a", location := .name "x\ny" }

/-- The program can be loaded, and its dump with locations has a line more than its layout. -/
theorem lineEnds_text_splitLocated :
    Operation.load splitLocated.save = .ok splitLocated ∧
      lineCount { debugInfo := true } splitLocated = 1 ∧
      lineEnds (text false { debugInfo := true } splitLocated) = 2 := by
  have hcount : lineCount { debugInfo := true } splitLocated = 1 := by
    rw [lineCount]
    rfl
  have hnames : (printed { debugInfo := true } splitLocated).flatMap
      (Operation.bareNames { debugInfo := true }) = ["x\ny"] := by
    simp [printed, splitLocated, Operation.walk, Operation.bareNames, Location.names,
      Data.OrderedMap.empty]
  have hfloats : splitLocated.floats = [] := by
    simp [Operation.floats, splitLocated, Operation.walk, Data.OrderedMap.empty,
      Data.OrderedMap.values]
  have hreads := splitLocated.reads_save (by simp [hfloats])
  refine ⟨hreads.eq_ok_iff.mpr ⟨rfl, ?_⟩, hcount, ?_⟩
  · rw [Json.Value.Readable, Operation.floats_toJson, hfloats]
    simp [splitLocated, Operation.toJson, Location.toJson, Json.Value.tagged, Json.Value.depth,
      Json.nestingBudget, Data.OrderedMap.empty]
  · rw [lineEnds_text_eq, hcount, hnames]
    decide

end Print

end OpTree
