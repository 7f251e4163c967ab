import OpTree.Proofs.LineEnds
import OpTree.Proofs.Paths

/-!
The lines of a part of a program among those of the whole. What is printed around a region does not
depend on what is in it, except through the names of values; so in any two sessions the lines of the
region stand behind equally many lines, and in front of equally many.
-/

namespace OpTree

open OpTree.IR

/-! ### Places of regions -/

lemma modify_eq_set_of_getElem? {α : Type} {l : List α} {i : ℕ} {a : α} (h : l[i]? = some a)
    (f : α → α) : l.modify i f = l.set i (f a) := by
  rw [List.modify_eq_set_getElem?, h]
  rfl

lemma set_eq_self_of_getElem? {α : Type} {l : List α} {i : ℕ} {a : α} (h : l[i]? = some a) :
    l.set i a = l := by
  obtain ⟨hi, rfl⟩ := List.getElem?_eq_some_iff.mp h
  exact List.set_getElem_self hi

namespace IR

/-- The region with another operation at a place. -/
def Region.withOperation (r : Region) (j k : ℕ) (op : Operation) : Region where
  blocks := r.blocks.modify j fun b => { b with operations := b.operations.set k op }

namespace Operation

/-- The operation with another region at a position. -/
def withRegion (op : Operation) (i : ℕ) (r : Region) : Operation :=
  { op with regions := op.regions.set i r }

/-- The region at a position of the operation at the end of a path. -/
def region? (op : Operation) (path : List Hop) (i : ℕ) : Option Region :=
  (op.at? path).bind (·.regions[i]?)

/-- The tree with another region at a position of the operation at the end of a path. -/
def replaceRegion (op : Operation) (path : List Hop) (i : ℕ) (r : Region) : Operation :=
  op.modifyAt (·.withRegion i r) path

lemma Leads.replaceRegion {op c : Operation} {hop : Hop} {s : Region} {b : Block}
    (h : op.Leads hop s b c) (path : List Hop) (i : ℕ) (r : Region) :
    op.replaceRegion (hop :: path) i r = op.withRegion hop.region
      (s.withOperation hop.block hop.operation (c.replaceRegion path i r)) := by
  have hop' : op.replaceRegion (hop :: path) i r =
      op.modifyChild (·.replaceRegion path i r) hop := rfl
  rw [hop', modifyChild, modify_eq_set_of_getElem? h.region, modify_eq_set_of_getElem? h.block,
    modify_eq_set_of_getElem? h.operation, withRegion, Region.withOperation,
    modify_eq_set_of_getElem? h.block]

/-- Induction along the path to a region. -/
@[elab_as_elim]
theorem region?_induction {i : ℕ} {r : Region} {motive : List Hop → Operation → Prop}
    (here : ∀ op : Operation, op.regions[i]? = some r → motive [] op)
    (inside : ∀ (hop : Hop) (path : List Hop) (op : Operation) (s : Region) (b : Block)
      (c : Operation), op.Leads hop s b c → motive path c → motive (hop :: path) op)
    {path : List Hop} {op : Operation} (h : op.region? path i = some r) : motive path op := by
  induction path generalizing op with
  | nil => exact here op h
  | cons hop path ih =>
    obtain ⟨o, ho, hr⟩ := Option.bind_eq_some_iff.mp h
    obtain ⟨c, hc, ho⟩ := Option.bind_eq_some_iff.mp ho
    obtain ⟨s, b, hleads⟩ := child?_eq_some.mp hc
    exact inside hop path op s b c hleads (ih (Option.bind_eq_some_iff.mpr ⟨o, ho, hr⟩))

lemma withRegion_self {op : Operation} {i : ℕ} {r : Region} (h : op.regions[i]? = some r) :
    op.withRegion i r = op := by
  rw [withRegion, set_eq_self_of_getElem? h]
  cases op
  rfl

lemma Leads.withOperation_self {op c : Operation} {hop : Hop} {s : Region} {b : Block}
    (h : op.Leads hop s b c) : s.withOperation hop.block hop.operation c = s := by
  have hblock : { b with operations := b.operations.set hop.operation c } = b := by
    rw [set_eq_self_of_getElem? h.operation]
    cases b
    rfl
  rw [Region.withOperation, modify_eq_set_of_getElem? h.block, hblock,
    set_eq_self_of_getElem? h.block]
  cases s
  rfl

lemma replaceRegion_self {op : Operation} {path : List Hop} {i : ℕ} {r : Region}
    (h : op.region? path i = some r) : op.replaceRegion path i r = op := by
  refine region?_induction (fun op hr => ?_) (fun hop path op s b c hleads ih => ?_) h
  · exact withRegion_self hr
  · rw [hleads.replaceRegion, ih, hleads.withOperation_self, withRegion_self hleads.region]

end Operation

end IR

namespace Print

/-! ### Lines in two sessions -/

/-- A relation holds between the lines of an operation itself in two sessions. -/
structure Session.Relates (R : Line → Line → Prop) (s s' : Session) (level : ℕ)
    (op : Operation) : Prop where
  whole : R ⟨level, .whole, s.head op ++ s.tail op⟩ ⟨level, .whole, s'.head op ++ s'.tail op⟩
  skipped :
    let dots := Ty.commaList (op.regions.map fun _ => "\x7b...\x7d")
    R ⟨level, .whole, s.head op ++ " (" ++ dots ++ ")" ++ s.tail op⟩
      ⟨level, .whole, s'.head op ++ " (" ++ dots ++ ")" ++ s'.tail op⟩
  opening : R ⟨level, .opening, s.head op ++ " (\x7b"⟩ ⟨level, .opening, s'.head op ++ " (\x7b"⟩
  separator : R ⟨level, .separator, "\x7d, \x7b"⟩ ⟨level, .separator, "\x7d, \x7b"⟩
  label : ∀ r ∈ op.regions, ∀ b ∈ r.blocks, ∀ index,
    R ⟨level, .label, s.labelText index b⟩ ⟨level, .label, s'.labelText index b⟩
  closing : R ⟨level, .closing, "\x7d)" ++ s.tail op⟩ ⟨level, .closing, "\x7d)" ++ s'.tail op⟩

lemma regionLines_eq (s : Session) (level : ℕ) (r : Region) :
    s.regionLines level r = r.blocks.zipIdx.flatMap fun p =>
      s.labelLines level p.2 p.1 ++ p.1.operations.flatMap (s.lines (level + 1)) := by
  have hblocks (index : ℕ) (bs : List Block) :
      s.blockLines level index (bs.map fun b => (b, b.operations.flatMap (s.lines (level + 1)))) =
        (bs.zipIdx index).flatMap fun p =>
          s.labelLines level p.2 p.1 ++ p.1.operations.flatMap (s.lines (level + 1)) := by
    induction bs generalizing index with
    | nil => rfl
    | cons b bs ih =>
      rw [List.map_cons, Session.blockLines, ih, List.zipIdx_cons, List.flatMap_cons]
  exact hblocks 0 r.blocks

section

variable {α β : Type} {R : β → β → Prop}

lemma forall₂_flatMap {l : List α} {g g' : α → List β} (h : ∀ a ∈ l, List.Forall₂ R (g a) (g' a)) :
    List.Forall₂ R (l.flatMap g) (l.flatMap g') := by
  induction l with
  | nil => exact .nil
  | cons a l ih =>
    rw [List.flatMap_cons, List.flatMap_cons]
    exact List.rel_append (h a (.head _)) (ih fun b hb => h b (.tail _ hb))

lemma forall₂_intercalate {sep : List β} (hsep : List.Forall₂ R sep sep) {l : List α}
    {g g' : α → List β} (h : ∀ a ∈ l, List.Forall₂ R (g a) (g' a)) :
    List.Forall₂ R (sep.intercalate (l.map g)) (sep.intercalate (l.map g')) := by
  cases l with
  | nil => exact .nil
  | cons a l =>
    rw [List.map_cons, List.map_cons, Text.intercalate_cons, Text.intercalate_cons,
      List.flatMap_map, List.flatMap_map]
    exact List.rel_append (h a (.head _))
      (forall₂_flatMap fun b hb => List.rel_append hsep (h b (.tail _ hb)))

end

section

variable {R : Line → Line → Prop} {s s' : Session}

lemma forall₂_regionLines {level : ℕ} {r : Region}
    (hlabel : ∀ b ∈ r.blocks, ∀ index,
      R ⟨level, .label, s.labelText index b⟩ ⟨level, .label, s'.labelText index b⟩)
    (hnested : ∀ b ∈ r.blocks, ∀ c ∈ b.operations,
      List.Forall₂ R (s.lines (level + 1) c) (s'.lines (level + 1) c)) :
    List.Forall₂ R (s.regionLines level r) (s'.regionLines level r) := by
  rw [regionLines_eq, regionLines_eq]
  refine forall₂_flatMap fun p hp => ?_
  have hb : p.1 ∈ r.blocks := List.fst_mem_of_mem_zipIdx hp
  refine List.rel_append ?_ (forall₂_flatMap (hnested p.1 hb))
  rw [Session.labelLines, Session.labelLines]
  split
  · exact .nil
  · exact .cons (hlabel p.1 hb p.2) .nil

/-- **Two sessions print an operation line by line alike**: what holds between the lines of each
operation itself holds between all lines. -/
theorem forall₂_lines (hskip : s.flags.skipRegions = s'.flags.skipRegions) {level : ℕ}
    {op : Operation} (h : ∀ k ≥ level, ∀ o ∈ op.walk, s.Relates R s' k o) :
    List.Forall₂ R (s.lines level op) (s'.lines level op) := by
  induction op using Operation.nested_induction generalizing level with
  | nest op ih =>
    have hown := h level (Nat.le_refl _) op op.self_mem_walk
    rw [Session.lines, Session.lines, ← hskip]
    split
    · exact .cons hown.whole .nil
    · split
      · exact .cons hown.skipped .nil
      · refine .cons hown.opening (List.rel_append ?_ (.cons hown.closing .nil))
        refine forall₂_intercalate (.cons hown.separator .nil) fun r hr => ?_
        refine forall₂_regionLines (hown.label r hr) fun b hb c hc => ih r hr b hb c hc ?_
        exact fun k hk o ho => h k (Nat.le_of_succ_le hk) o (Operation.walk_subset hr hb hc ho)

lemma length_lines_eq (hskip : s.flags.skipRegions = s'.flags.skipRegions) (level : ℕ)
    (op : Operation) : (s.lines level op).length = (s'.lines level op).length :=
  (forall₂_lines (R := fun _ _ => True) hskip fun _ _ _ _ =>
    ⟨trivial, trivial, trivial, trivial, fun _ _ _ _ _ => trivial, trivial⟩).length_eq

lemma length_regionLines_eq (hskip : s.flags.skipRegions = s'.flags.skipRegions) (level : ℕ)
    (r : Region) : (s.regionLines level r).length = (s'.regionLines level r).length :=
  (forall₂_regionLines (R := fun _ _ => True) (fun _ _ _ => trivial) fun _ _ c _ =>
    List.forall₂_iff_get.mpr ⟨length_lines_eq hskip (level + 1) c, fun _ _ _ => trivial⟩).length_eq

lemma level_le_of_mem_lines {level : ℕ} {op : Operation} :
    ∀ l ∈ s.lines level op, level ≤ l.level :=
  List.forall₂_same.mp (forall₂_lines (R := fun l _ => level ≤ l.level) rfl fun _ hk _ _ =>
    ⟨hk, hk, hk, hk, fun _ _ _ _ _ => hk, hk⟩)

lemma lineEnds_of_mem_lines (hs : s.Tame) {level : ℕ} {op : Operation}
    (hop : ∀ o ∈ op.walk, ∀ n ∈ o.bareNames s.flags, '\n' ∉ n.toList) :
    ∀ l ∈ s.lines level op, Text.lineEnds l.text = 0 := by
  refine List.forall₂_same.mp (forall₂_lines (R := fun l _ => Text.lineEnds l.text = 0) rfl ?_)
  intro k _ o ho
  have hhead := lineEnds_head hs o
  have htail : Text.lineEnds (s.tail o) = 0 := by
    rw [lineEnds_tail hs, Text.allLineEnds_eq_zero]
    exact hop o ho
  have hdots : Text.allLineEnds (o.regions.map fun _ => "\x7b...\x7d") = 0 := by
    rw [Text.allLineEnds_eq_zero, List.forall_mem_map]
    exact fun _ _ => by decide
  refine ⟨?_, ?_, ?_, by simp [Text.lineEnds],
    fun _ _ b _ index => lineEnds_labelText hs index b, ?_⟩
  · rw [Text.lineEnds_append, hhead, htail]
  · simp only [Text.lineEnds_append, hhead, htail, Text.lineEnds_commaList, hdots]
    rfl
  · rw [Text.lineEnds_append, hhead]
    rfl
  · rw [Text.lineEnds_append, htail]
    rfl

end

/-! ### Lines around a part -/

/-- In two listings of a whole, the lines of a part that may vary stand behind equally many lines
and in front of equally many. -/
def Framed {α : Type} (whole whole' part part' : α → List Line) : Prop :=
  ∃ front front' back back' : List Line, front.length = front'.length ∧
    back.length = back'.length ∧
    ∀ x, whole x = front ++ part x ++ back ∧ whole' x = front' ++ part' x ++ back'

lemma Framed.trans {α : Type} {whole whole' part part' inner inner' : α → List Line}
    (h : Framed whole whole' part part') (h' : Framed part part' inner inner') :
    Framed whole whole' inner inner' := by
  obtain ⟨front, front', back, back', hfront, hback, hwhole⟩ := h
  obtain ⟨front₁, front₁', back₁, back₁', hfront₁, hback₁, hpart⟩ := h'
  refine ⟨front ++ front₁, front' ++ front₁', back₁ ++ back, back₁' ++ back', ?_, ?_, fun x => ?_⟩
  · rw [List.length_append, List.length_append, hfront, hfront₁]
  · rw [List.length_append, List.length_append, hback, hback₁]
  · obtain ⟨h, h'⟩ := hwhole x
    obtain ⟨h₁, h₁'⟩ := hpart x
    simp only [h, h', h₁, h₁', List.append_assoc, and_self]

section

variable {α β : Type}

lemma intercalate_append_cons (sep s : List β) (l l' : List (List β)) :
    sep.intercalate (l ++ s :: l') =
      l.flatMap (fun t => t ++ sep) ++ s ++ l'.flatMap fun t => sep ++ t := by
  induction l with
  | nil => rw [List.nil_append, Text.intercalate_cons, List.flatMap_nil, List.nil_append]
  | cons t l ih =>
    have hrest : sep.intercalate (t :: (l ++ s :: l')) =
        t ++ sep ++ sep.intercalate (l ++ s :: l') := by
      cases l <;> simp [List.intercalate_cons_cons]
    rw [List.cons_append, hrest, ih, List.flatMap_cons]
    simp only [List.append_assoc]

lemma set_eq_append {l : List α} {i : ℕ} (hi : i < l.length) (a : α) :
    l.set i a = l.take i ++ a :: l.drop (i + 1) := by
  rw [List.set_eq_take_append_cons_drop, if_pos hi]

end

section

variable {α : Type} {s s' : Session} (hs : s.flags.skipRegions = false)
  (hs' : s'.flags.skipRegions = false)

include hs

lemma lines_withRegion (level : ℕ) {op : Operation} {i : ℕ} (hi : i < op.regions.length)
    (r : Region) : s.lines level (op.withRegion i r) =
      ⟨level, .opening, s.head op ++ " (\x7b"⟩ ::
        ((op.regions.take i).flatMap fun q =>
          s.regionLines level q ++ [⟨level, .separator, "\x7d, \x7b"⟩]) ++
      s.regionLines level r ++
      (((op.regions.drop (i + 1)).flatMap fun q =>
        [⟨level, .separator, "\x7d, \x7b"⟩] ++ s.regionLines level q) ++
          [⟨level, .closing, "\x7d)" ++ s.tail op⟩]) := by
  have hregions : (op.withRegion i r).regions =
      op.regions.take i ++ r :: op.regions.drop (i + 1) := set_eq_append hi r
  have hhead : s.head (op.withRegion i r) = s.head op := rfl
  have htail : s.tail (op.withRegion i r) = s.tail op := rfl
  rw [Session.lines_of_regions hs level (by simp [hregions]), hregions, hhead, htail,
    List.map_append, List.map_cons, intercalate_append_cons, List.flatMap_map, List.flatMap_map]
  simp only [List.append_assoc, List.cons_append]

omit hs in
lemma regionLines_withOperation (level : ℕ) {op c : Operation} {hop : Hop} {r : Region} {b : Block}
    (h : op.Leads hop r b c) (o : Operation) :
    s.regionLines level (r.withOperation hop.block hop.operation o) =
      ((r.blocks.take hop.block).zipIdx.flatMap fun p =>
        s.labelLines level p.2 p.1 ++ p.1.operations.flatMap (s.lines (level + 1))) ++
        s.labelLines level hop.block b ++
        (b.operations.take hop.operation).flatMap (s.lines (level + 1)) ++
      s.lines (level + 1) o ++
      ((b.operations.drop (hop.operation + 1)).flatMap (s.lines (level + 1)) ++
        ((r.blocks.drop (hop.block + 1)).zipIdx (hop.block + 1)).flatMap fun p =>
          s.labelLines level p.2 p.1 ++ p.1.operations.flatMap (s.lines (level + 1))) := by
  have hj : hop.block < r.blocks.length := (List.getElem?_eq_some_iff.mp h.block).1
  have hk : hop.operation < b.operations.length := (List.getElem?_eq_some_iff.mp h.operation).1
  have htake : (r.blocks.take hop.block).length = hop.block := by
    rw [List.length_take, Nat.min_eq_left (Nat.le_of_lt hj)]
  have hlabel (ops : List Operation) : s.labelLines level hop.block { b with operations := ops } =
      s.labelLines level hop.block b := rfl
  rw [regionLines_eq, Region.withOperation, modify_eq_set_of_getElem? h.block]
  dsimp only
  rw [set_eq_append hj, set_eq_append hk, List.zipIdx_append, List.zipIdx_cons, htake,
    List.flatMap_append, List.flatMap_cons, Nat.zero_add, hlabel, List.flatMap_append,
    List.flatMap_cons]
  simp only [List.append_assoc]

include hs'

lemma framed_region (level : ℕ) {op : Operation} {i : ℕ} (hi : i < op.regions.length)
    (g : α → Region) :
    Framed (fun x => s.lines level (op.withRegion i (g x)))
      (fun x => s'.lines level (op.withRegion i (g x)))
      (fun x => s.regionLines level (g x)) (fun x => s'.regionLines level (g x)) := by
  have hlength (q : Region) := length_regionLines_eq (hs.trans hs'.symm) level q
  refine ⟨_, _, _, _, ?_, ?_, fun x =>
    ⟨lines_withRegion hs level hi (g x), lines_withRegion hs' level hi (g x)⟩⟩
  · simp only [List.length_cons, List.length_flatMap, List.length_append, hlength,
      List.length_nil]
  · simp only [List.length_cons, List.length_flatMap, List.length_append, hlength,
      List.length_nil]

lemma framed_operation (level : ℕ) {op c : Operation} {hop : Hop} {r : Region} {b : Block}
    (h : op.Leads hop r b c) (g : α → Operation) :
    Framed (fun x => s.regionLines level (r.withOperation hop.block hop.operation (g x)))
      (fun x => s'.regionLines level (r.withOperation hop.block hop.operation (g x)))
      (fun x => s.lines (level + 1) (g x)) (fun x => s'.lines (level + 1) (g x)) := by
  have hlabel (index : ℕ) (b : Block) :
      (s.labelLines level index b).length = (s'.labelLines level index b).length := by
    rw [Session.labelLines, Session.labelLines]
    split
    · rfl
    · rw [List.length_singleton, List.length_singleton]
  have hlines (o : Operation) := length_lines_eq (hs.trans hs'.symm) (level + 1) o
  refine ⟨_, _, _, _, ?_, ?_, fun x =>
    ⟨regionLines_withOperation level h (g x), regionLines_withOperation level h (g x)⟩⟩
  · simp only [List.length_append, List.length_flatMap, hlabel, hlines]
  · simp only [List.length_append, List.length_flatMap, hlines, hlabel]

/-- **The lines of a region among those of a program** that is printed in two sessions. -/
theorem framed_replaceRegion {op : Operation} {path : List Hop} {i : ℕ} {r : Region}
    (h : op.region? path i = some r) (level : ℕ) :
    Framed (fun x => s.lines level (op.replaceRegion path i x))
      (fun x => s'.lines level (op.replaceRegion path i x))
      (fun x => s.regionLines (level + path.length) x)
      (fun x => s'.regionLines (level + path.length) x) := by
  revert level
  refine Operation.region?_induction (fun op hr level => ?_)
    (fun hop path op q b c hleads ih level => ?_) h
  · exact framed_region hs hs' level (List.getElem?_eq_some_iff.mp hr).1 id
  · have hi : hop.region < op.regions.length := (List.getElem?_eq_some_iff.mp hleads.region).1
    have hdepth : level + (hop :: path).length = level + 1 + path.length := by
      rw [List.length_cons]
      omega
    simp only [hleads.replaceRegion, hdepth]
    exact ((framed_region hs hs' level hi _).trans
      (framed_operation hs hs' level hleads _)).trans (ih (level + 1))

end

end Print

end OpTree
