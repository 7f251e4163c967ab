import OpTree.Proofs.LineFrames
import OpTree.Proofs.ProgramText

/-!
The text of a program tells how many blocks its regions have. Each block has a label with its
position, but for a first block without arguments; so the last label gives the number of blocks, and
a region without labels has at most one block. That a region has one block which is empty and not
none cannot be seen.
-/

namespace OpTree

open OpTree.IR OpTree.Text

namespace IR.Operation

/-- Of the names in the tree that are printed without quotes and escapes none holds a line end; the
locations are not printed. -/
def Unbroken (op : Operation) : Prop := ∀ o ∈ op.walk, ∀ n ∈ o.bareNames {}, '\n' ∉ n.toList

end IR.Operation

namespace Print

/-! ### What a region defines -/

lemma flatMap_set_congr {α β : Type} {g : α → List β} {a a' : α} (h : g a = g a') (l : List α)
    (i : ℕ) : (l.set i a).flatMap g = (l.set i a').flatMap g := by
  rw [List.flatMap_def, List.flatMap_def, List.map_set, List.map_set, h]

def blockDefinitions (b : Block) : List Definition :=
  b.arguments.map (fun v => .argument v.id) ++ b.operations.flatMap definitions

def regionDefinitions (r : Region) : List Definition := r.blocks.flatMap blockDefinitions

lemma definitions_withRegion_congr {r r' : Region} (h : regionDefinitions r = regionDefinitions r')
    (op : Operation) (i : ℕ) :
    definitions (op.withRegion i r) = definitions (op.withRegion i r') := by
  have hregions (r : Region) : definitions (op.withRegion i r) =
      op.results.map (fun v => .result v.id) ++
        (op.regions.set i r).flatMap regionDefinitions := by
    rw [definitions]
    rfl
  rw [hregions, hregions, flatMap_set_congr h]

lemma regionDefinitions_withOperation_congr {op c o o' : Operation} {hop : Hop} {r : Region}
    {b : Block} (hleads : op.Leads hop r b c) (h : definitions o = definitions o') :
    regionDefinitions (r.withOperation hop.block hop.operation o) =
      regionDefinitions (r.withOperation hop.block hop.operation o') := by
  rw [Region.withOperation, Region.withOperation, modify_eq_set_of_getElem? hleads.block,
    modify_eq_set_of_getElem? hleads.block]
  refine flatMap_set_congr ?_ _ _
  rw [blockDefinitions, blockDefinitions, flatMap_set_congr h]

lemma definitions_replaceRegion_congr {op : Operation} {path : List Hop} {i : ℕ} {q r r' : Region}
    (hplace : op.region? path i = some q) (h : regionDefinitions r = regionDefinitions r') :
    definitions (op.replaceRegion path i r) = definitions (op.replaceRegion path i r') := by
  refine Operation.region?_induction (fun op _ => ?_) (fun hop path op s b c hleads ih => ?_) hplace
  · exact definitions_withRegion_congr h op i
  · rw [hleads.replaceRegion, hleads.replaceRegion]
    exact definitions_withRegion_congr (regionDefinitions_withOperation_congr hleads ih) op _

/-! ### Texts and lines -/

def regionText (s : Session) (level : ℕ) (r : Region) : String :=
  String.join ((s.regionLines level r).map (Line.render s.flags.indent.unit))

def lineText (l : Line) : List Char := margin l.level ++ l.text.toList

lemma toList_text_plain (ansi : Bool) (root : Operation) : (text ansi {} root).toList =
    ((lines ansi {} root).map lineText).flatMap fun t => t ++ ['\n'] := by
  rw [text, String.toList_join, List.flatMap_map, List.flatMap_map]
  refine List.flatMap_congr fun l _ => ?_
  rw [lineText, List.append_assoc]
  exact toList_render l

lemma splitOnP_lines {ts : List (List Char)} (h : ∀ t ∈ ts, '\n' ∉ t) :
    (ts.flatMap fun t => t ++ ['\n']).splitOnP (· == '\n') = ts ++ [[]] := by
  induction ts with
  | nil => rfl
  | cons t ts ih =>
    have ht : ∀ c ∈ t, (c == '\n') = false := fun c hc =>
      beq_false_of_ne fun hce => h t (.head _) (hce ▸ hc)
    rw [List.flatMap_cons, List.append_assoc, List.singleton_append,
      List.splitOnP_append_cons_of_forall_mem ht _ (beq_self_eq_true _),
      ih fun u hu => h u (.tail _ hu), List.cons_append]

lemma lineEnd_notMem_lineText {l : Line} (h : lineEnds l.text = 0) : '\n' ∉ lineText l := by
  rw [lineText, List.mem_append, not_or, margin, ← lineEnds_eq_zero]
  exact ⟨by simp, h⟩

lemma map_lineText_eq {ansi : Bool} {a b : Operation} (ha : a.Unbroken) (hb : b.Unbroken)
    (h : text ansi {} a = text ansi {} b) :
    (lines ansi {} a).map lineText = (lines ansi {} b).map lineText := by
  have hlines {op : Operation} (hop : op.Unbroken) :
      ∀ t ∈ (lines ansi {} op).map lineText, '\n' ∉ t := by
    rw [List.forall_mem_map]
    exact fun l hl => lineEnd_notMem_lineText
      (lineEnds_of_mem_lines (tame_ofOperation ansi {} op) hop l hl)
  have hsplit : (text ansi {} a).toList.splitOnP (· == '\n') =
      (text ansi {} b).toList.splitOnP (· == '\n') := by rw [h]
  rw [toList_text_plain, toList_text_plain, splitOnP_lines (hlines ha),
    splitOnP_lines (hlines hb)] at hsplit
  exact List.append_cancel_right hsplit

/-! ### Labels -/

def isLabelAt (level : ℕ) (t : List Char) : Bool := t[2 * level]? == some '^'

lemma isLabelAt_labelText (s : Session) (level index : ℕ) (b : Block) :
    isLabelAt level (lineText ⟨level, .label, s.labelText index b⟩) = true := by
  have hlength : (margin level).length = 2 * level := List.length_replicate
  have hhead : (s.labelText index b).toList.head? = some '^' := by
    have htext : (s.labelText index b).toList = _ := toList_labelText s.names index b
    rw [htext]
    rfl
  rw [isLabelAt, lineText, List.getElem?_append_right (Nat.le_of_eq hlength), hlength,
    Nat.sub_self, ← List.head?_eq_getElem?, hhead]
  rfl

lemma isLabelAt_deeper {level : ℕ} {l : Line} (h : level < l.level) :
    isLabelAt level (lineText l) = false := by
  have hlt : 2 * level < (margin l.level).length := by
    rw [margin, List.length_replicate]
    omega
  rw [isLabelAt, lineText, List.getElem?_append_left hlt, margin, List.getElem?_replicate]
  split <;> rfl

lemma index_eq_of_labelText {s s' : Session} {i j : ℕ} {b c : Block}
    (h : (s.labelText i b).toList = (s'.labelText j c).toList) : i = j := by
  have htext (s : Session) (i : ℕ) (b : Block) :
      (s.labelText i b).toList = _ := toList_labelText s.names i b
  have hdigits (ps : List (String × Ty)) :
      ∀ c ∈ (argumentsChars ps ++ [':']).head?, c.isDigit = false := by
    unfold argumentsChars bracketed
    split <;> simp
  rw [htext, htext] at h
  simp only [List.cons.injEq, true_and] at h
  exact (toDigits_append_inj (hdigits _) (hdigits _) h).1

def isLabelled (p : Block × ℕ) : Bool := p.2 ≠ 0 || !p.1.arguments.isEmpty

/-- The blocks of a region that have labels, with their positions. -/
def labelled (r : Region) : List (Block × ℕ) := r.blocks.zipIdx.filter isLabelled

lemma labelLines_of_isLabelled (s : Session) (level : ℕ) (p : Block × ℕ) :
    s.labelLines level p.2 p.1 =
      if isLabelled p then [⟨level, .label, s.labelText p.2 p.1⟩] else [] :=
  s.labelLines_eq level p.2 p.1

lemma filter_isLabelAt (s : Session) (level : ℕ) (r : Region) :
    ((s.regionLines level r).map lineText).filter (isLabelAt level) =
      (labelled r).map fun p => lineText ⟨level, .label, s.labelText p.2 p.1⟩ := by
  have hnested (b : Block) :
      ((b.operations.flatMap (s.lines (level + 1))).map lineText).filter (isLabelAt level) =
        [] := by
    rw [List.filter_eq_nil_iff, List.forall_mem_map]
    intro l hl
    obtain ⟨c, -, hl⟩ := List.mem_flatMap.mp hl
    rw [isLabelAt_deeper (level_le_of_mem_lines l hl)]
    exact Bool.false_ne_true
  have hblock (p : Block × ℕ) : ((s.labelLines level p.2 p.1 ++
      p.1.operations.flatMap (s.lines (level + 1))).map lineText).filter (isLabelAt level) =
        if isLabelled p then [lineText ⟨level, .label, s.labelText p.2 p.1⟩] else [] := by
    rw [List.map_append, List.filter_append, hnested, List.append_nil, labelLines_of_isLabelled]
    split
    · rw [List.map_singleton, List.filter_cons_of_pos (isLabelAt_labelText s level p.2 p.1),
        List.filter_nil]
    · rfl
  rw [regionLines_eq, List.map_flatMap, List.filter_flatMap, labelled]
  simp only [hblock]
  induction r.blocks.zipIdx with
  | nil => rfl
  | cons p ps ih =>
    rw [List.flatMap_cons, ih, List.filter_cons]
    split <;> rfl

/-! ### The number of blocks -/

lemma getLast?_labelled {r : Region} (h : labelled r ≠ []) :
    ((labelled r).map Prod.snd).getLast? = some (r.blocks.length - 1) := by
  rcases List.eq_nil_or_concat r.blocks with hblocks | ⟨bs, b, hblocks⟩
  · rw [labelled, hblocks] at h
    exact absurd rfl h
  · have hzip : r.blocks.zipIdx = bs.zipIdx ++ [(b, bs.length)] := by
      rw [hblocks, List.concat_eq_append, List.zipIdx_append, List.zipIdx_singleton, Nat.zero_add]
    have hlength : r.blocks.length - 1 = bs.length := by simp [hblocks]
    rw [labelled, hzip, List.filter_append] at h ⊢
    by_cases hlast : isLabelled (b, bs.length) = true
    · rw [List.filter_cons_of_pos hlast, List.filter_nil, List.map_append, List.map_singleton,
        List.getLast?_concat, hlength]
    · have hbs : bs = [] := by
        by_contra hne
        refine hlast ?_
        simp [isLabelled, hne]
      subst hbs
      rw [List.filter_cons_of_neg hlast] at h
      exact absurd rfl h

/-- A region without labels has at most a block without arguments. -/
lemma blocks_of_labelled_eq_nil {r : Region} (h : labelled r = []) :
    r.blocks = [] ∨ ∃ b, r.blocks = [b] ∧ b.arguments = [] := by
  rw [labelled] at h
  match hblocks : r.blocks with
  | [] => exact .inl rfl
  | [b] =>
    refine .inr ⟨b, rfl, ?_⟩
    rw [hblocks] at h
    simpa [isLabelled] using h
  | b :: c :: bs =>
    rw [hblocks] at h
    simp [isLabelled, List.zipIdx_cons] at h

lemma eq_empty_of_regionLines_eq_nil {s : Session} {level : ℕ} {r : Region} {b : Block}
    (hblocks : r.blocks = [b]) (harguments : b.arguments = [])
    (h : s.regionLines level r = []) : r.blocks = [{}] := by
  rw [regionLines_eq, hblocks, List.zipIdx_singleton, List.flatMap_singleton,
    List.append_eq_nil_iff] at h
  have hoperations : b.operations = [] := by
    by_contra hne
    obtain ⟨c, cs, hcs⟩ := List.exists_cons_of_ne_nil hne
    obtain ⟨ls, l, hls⟩ := exists_lines_eq_concat s (level + 1) c
    simp [hcs, hls] at h
  rw [hblocks]
  cases b
  simp_all

/-- **The lines of a region tell how many blocks it has**, but not whether it has none or one that
is empty. -/
lemma blocks_of_regionLines_eq {s s' : Session} {level : ℕ} {r r' : Region}
    (h : (s.regionLines level r).map lineText = (s'.regionLines level r').map lineText)
    (hne : r'.blocks.length ≠ r.blocks.length) :
    r.blocks = [] ∧ r'.blocks = [{}] ∨ r.blocks = [{}] ∧ r'.blocks = [] := by
  have hindices : (labelled r).map Prod.snd = (labelled r').map Prod.snd := by
    have hlabels := congrArg (List.filter (isLabelAt level)) h
    rw [filter_isLabelAt, filter_isLabelAt] at hlabels
    refine map_eq_of_map_eq (fun p _ q _ heq => ?_) hlabels
    exact index_eq_of_labelText (List.append_cancel_left heq)
  have hlines {s : Session} {r : Region} (hblocks : r.blocks = []) :
      s.regionLines level r = [] := by
    rw [regionLines_eq, hblocks]
    rfl
  by_cases hlabelled : labelled r = []
  · have hlabelled' : labelled r' = [] := by
      rw [hlabelled, List.map_nil] at hindices
      exact List.map_eq_nil_iff.mp hindices.symm
    rcases blocks_of_labelled_eq_nil hlabelled with hr | ⟨b, hr, harguments⟩ <;>
      rcases blocks_of_labelled_eq_nil hlabelled' with hr' | ⟨b', hr', harguments'⟩
    · exact absurd (by rw [hr, hr']) hne
    · rw [hlines hr, List.map_nil] at h
      exact .inl ⟨hr, eq_empty_of_regionLines_eq_nil hr' harguments'
        (List.map_eq_nil_iff.mp h.symm)⟩
    · rw [hlines hr', List.map_nil] at h
      exact .inr ⟨eq_empty_of_regionLines_eq_nil hr harguments (List.map_eq_nil_iff.mp h), hr'⟩
    · exact absurd (by rw [hr, hr']; rfl) hne
  · have hlabelled' : labelled r' ≠ [] := by
      intro hnil
      rw [hnil, List.map_nil] at hindices
      exact hlabelled (List.map_eq_nil_iff.mp hindices)
    have hpositive {r : Region} (h : labelled r ≠ []) : 0 < r.blocks.length := by
      rw [List.length_pos_iff]
      intro hnil
      rw [labelled, hnil] at h
      exact h rfl
    have hlast := getLast?_labelled hlabelled
    rw [hindices, getLast?_labelled hlabelled', Option.some.injEq] at hlast
    have := hpositive hlabelled
    have := hpositive hlabelled'
    omega

/-! ### Programs -/

lemma text_replaceRegion_congr {ansi : Bool} {op : Operation} {path : List Hop} {i : ℕ}
    {q r r' : Region} (hplace : op.region? path i = some q)
    (hdefinitions : regionDefinitions r = regionDefinitions r')
    (htext : ∀ root, regionText (.ofOperation ansi {} root) path.length r =
      regionText (.ofOperation ansi {} root) path.length r') :
    text ansi {} (op.replaceRegion path i r) = text ansi {} (op.replaceRegion path i r') := by
  have hsession : Session.ofOperation ansi {} (op.replaceRegion path i r) =
      Session.ofOperation ansi {} (op.replaceRegion path i r') := by
    rw [Session.ofOperation, Session.ofOperation, Names.ofOperation, Names.ofOperation,
      definitions_replaceRegion_congr hplace hdefinitions]
    rfl
  have hskip : (Session.ofOperation ansi {} (op.replaceRegion path i r)).flags.skipRegions =
      false := rfl
  obtain ⟨front, _, back, _, -, -, hframe⟩ := framed_replaceRegion hskip hskip hplace 0
  have hparts (x : Region) (hx : Session.ofOperation ansi {} (op.replaceRegion path i r) =
      .ofOperation ansi {} (op.replaceRegion path i x)) :
      text ansi {} (op.replaceRegion path i x) =
        String.join (front.map (Line.render (IndentStyle.spaces 2).unit)) ++
          regionText (.ofOperation ansi {} (op.replaceRegion path i r)) path.length x ++
          String.join (back.map (Line.render (IndentStyle.spaces 2).unit)) := by
    have hlines := (hframe x).1
    dsimp only at hlines
    rw [text, lines, ← hx, hlines, Nat.zero_add, List.map_append, List.map_append,
      String.join_append, String.join_append]
    rfl
  rw [hparts r rfl, hparts r' hsession, htext]

lemma text_replaceRegion_empty (ansi : Bool) {op : Operation} {path : List Hop} {i : ℕ}
    {q r r' : Region} (hplace : op.region? path i = some q) (hr : r.blocks = [])
    (hr' : r'.blocks = [{}]) :
    text ansi {} (op.replaceRegion path i r) = text ansi {} (op.replaceRegion path i r') := by
  refine text_replaceRegion_congr hplace ?_ fun root => ?_
  · rw [regionDefinitions, regionDefinitions, hr, hr']
    rfl
  · rw [regionText, regionText, regionLines_eq, regionLines_eq, hr, hr']
    rfl

/-- **Regions with different numbers of blocks are printed differently**, wherever they stand in a
program and whatever else is in them, except for a region without blocks and one with an empty
block. -/
theorem text_replaceRegion_eq_iff (ansi : Bool) {a : Operation} {path : List Hop} {i : ℕ}
    {r r' : Region} (hr : a.region? path i = some r)
    (hlength : r'.blocks.length ≠ r.blocks.length) (ha : a.Unbroken)
    (hb : (a.replaceRegion path i r').Unbroken) :
    text ansi {} a = text ansi {} (a.replaceRegion path i r') ↔
      r.blocks = [] ∧ r'.blocks = [{}] ∨ r.blocks = [{}] ∧ r'.blocks = [] := by
  have hself : a.replaceRegion path i r = a := Operation.replaceRegion_self hr
  constructor
  · intro htext
    have hlines := map_lineText_eq ha hb htext
    have hskip (root : Operation) : (Session.ofOperation ansi {} root).flags.skipRegions =
        false := rfl
    obtain ⟨front, front', back, back', hfront, hback, hframe⟩ :=
      framed_replaceRegion (hskip a) (hskip (a.replaceRegion path i r')) hr 0
    have hleft := (hframe r).1
    have hright := (hframe r').2
    dsimp only at hleft hright
    rw [hself] at hleft
    rw [lines, lines, hleft, hright] at hlines
    simp only [List.map_append] at hlines
    have hinner := List.append_inj_left' hlines (by simp [hback])
    exact blocks_of_regionLines_eq (List.append_inj_right hinner (by simp [hfront])) hlength
  · rintro (⟨hnone, hempty⟩ | ⟨hempty, hnone⟩)
    · have htext := text_replaceRegion_empty ansi hr hnone hempty
      rwa [hself] at htext
    · have htext := text_replaceRegion_empty ansi hr hnone hempty
      rw [hself] at htext
      exact htext.symm

/-- A program with two empty blocks in a region further down. -/
def emptyBlocks : Operation where
  name := "m"
  regions := [{ blocks := [{ operations := [
    { name := "x", regions := [{ blocks := [{}, {}] }] }] }] }]

/-- If one of the blocks is left out, this can be seen. -/
theorem text_emptyBlocks_ne : text false {} emptyBlocks ≠
    text false {} (emptyBlocks.replaceRegion [⟨0, 0, 0⟩] 0 { blocks := [{}] }) := by
  have hunbroken (r : Region) (hr : r.blocks = [{}] ∨ r.blocks = [{}, {}]) :
      (emptyBlocks.replaceRegion [⟨0, 0, 0⟩] 0 r).Unbroken := by
    rcases hr with hr | hr <;>
      simp [Operation.Unbroken, Operation.replaceRegion, Operation.modifyAt,
        Operation.modifyChild, Operation.withRegion, emptyBlocks, Operation.walk,
        Operation.bareNames, Data.OrderedMap.empty, hr]
  have hself : emptyBlocks.Unbroken := hunbroken { blocks := [{}, {}] } (.inr rfl)
  have hplace : emptyBlocks.region? [⟨0, 0, 0⟩] 0 = some { blocks := [{}, {}] } := rfl
  have hiff := text_replaceRegion_eq_iff false hplace (by decide) hself
    (hunbroken { blocks := [{}] } (.inl rfl))
  simp [hiff]

def marked (name mark : String) : Operation where
  name := name
  attributes := Data.OrderedMap.empty.insert mark .unit

def parted : Region where
  blocks := [{ operations := [marked "x" "k"] }, { operations := [marked "y" "l"] }]

/-- A region with one block, in which a mark looks like the end of a block and the start of the
next. -/
def feigned : Region where
  blocks := [{ operations := [marked "x" "k\x7d : () -> ()\n^bb1:\n  \"y\"() \x7bl"] }]

lemma lines_marked (root : Operation) (level : ℕ) (name mark : String) :
    (Session.ofOperation false {} root).lines level (marked name mark) =
      [⟨level, .whole,
        quote name ++ "()" ++ (" " ++ ("\x7b" ++ mark ++ "\x7d") ++ " : () -> ()")⟩] := by
  have hhead : (Session.ofOperation false {} root).head (marked name mark) =
      "" ++ quote name ++ "(" ++ "" ++ ")" := rfl
  have hattributes : attributesText {} (marked name mark) = "\x7b" ++ mark ++ "\x7d" := rfl
  have hne : ¬ (attributesText {} (marked name mark)).isEmpty = true := by simp [hattributes]
  have hsignature : (signature (marked name mark)).text = "() -> ()" := by
    simp [signature, marked, Ty.text, Ty.commaList, Ty.resultsText]
  have htail : (Session.ofOperation false {} root).tail (marked name mark) =
      " " ++ ("\x7b" ++ mark ++ "\x7d") ++ " : " ++ "() -> ()" ++ "" ++ "" := by
    rw [← hsignature, ← hattributes]
    exact congrArg (· ++ " : " ++ (signature (marked name mark)).text ++ "" ++ "") (if_neg hne)
  rw [Session.lines, if_pos (by rfl), hhead, htail]
  simp [String.append_assoc]

def enclosing (r : Region) : Operation where
  name := "m"
  regions := [r]

/-- Neither an empty block nor, in a name with a line end, what looks like a label can be told. -/
theorem text_replaceRegion_alike :
    text false {} (enclosing ⟨[]⟩) =
        text false {} ((enclosing ⟨[]⟩).replaceRegion [] 0 ⟨[{}]⟩) ∧
      feigned.blocks.length ≠ parted.blocks.length ∧
      text false {} (enclosing parted) =
        text false {} ((enclosing parted).replaceRegion [] 0 feigned) := by
  have hplace (r : Region) : (enclosing r).region? [] 0 = some r := rfl
  refine ⟨text_replaceRegion_empty (r := ⟨[]⟩) false (hplace ⟨[]⟩) rfl rfl, by decide, ?_⟩
  refine text_replaceRegion_congr (r := parted) (hplace parted) ?_ fun root => ?_
  · simp [regionDefinitions, blockDefinitions, definitions, parted, feigned, marked]
  · rw [regionText, regionText, regionLines_eq, regionLines_eq, parted, feigned]
    simp only [List.zipIdx, List.flatMap_cons, lines_marked]
    rfl

end Print

end OpTree
