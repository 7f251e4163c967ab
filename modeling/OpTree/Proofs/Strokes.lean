import OpTree.Proofs.Printing
import OpTree.Proofs.Results

/-!
Printing as a row of strokes. Each stroke moves the pen in or out, or writes one line of an
operation, which is known by the path that leads to it. Followed from any level, the strokes write
each line as deep as its operation is nested, meet the operations in the order of the walk, never
move out where the pen was not moved in, and end at the level where they began.
-/

namespace OpTree.Print

open OpTree.IR

/-- What a pen does: it moves in, moves out, or writes the line in a slot of the operation at the
end of a path. -/
inductive Stroke
  | indent
  | dedent
  | line (path : List Hop) (slot : Slot)

namespace Stroke

def below (hop : Hop) : Stroke → Stroke
  | line path slot => line (hop :: path) slot
  | e => e

/-- The level behind a stroke, if it is made at a level. At level zero the pen does not move out. -/
def after (level : ℕ) : Stroke → ℕ
  | indent => level + 1
  | dedent => level - 1
  | line .. => level

def slot? : Stroke → Option Slot
  | line _ slot => some slot
  | _ => none

@[simp] lemma after_below (level : ℕ) (hop : Hop) (e : Stroke) :
    (e.below hop).after level = e.after level := by cases e <;> rfl

@[simp] lemma slot?_below (hop : Hop) (e : Stroke) : (e.below hop).slot? = e.slot? := by
  cases e <;> rfl

end Stroke

/-! ### The strokes of an operation -/

/-- The first block of a region has a label only for its arguments. -/
def labelStrokes (index : ℕ) (b : Block) : List Stroke :=
  if index = 0 ∧ b.arguments.isEmpty then [] else [.line [] (.label index b)]

/-- There is a separator in front of each region but the first. -/
def separatorStrokes (region : ℕ) : List Stroke :=
  if 0 < region then [.line [] .separator] else []

/-- The strokes of a block, given those of the operations in it: its label stands further out. -/
def framed (region index : ℕ) (b : Block) (nested : List (List Stroke)) : List Stroke :=
  labelStrokes index b ++
    .indent :: (nested.zipIdx.flatMap (fun q => q.1.map (.below ⟨region, index, q.2⟩)) ++ [.dedent])

def strokes (op : Operation) : List Stroke :=
  if op.regions.isEmpty then [.line [] (.whole op)]
  else
    .line [] (.opening op) ::
      ((op.regions.map fun r => r.blocks.map fun b => (b, b.operations.map strokes)).zipIdx.flatMap
        (fun q => separatorStrokes q.2 ++
          q.1.zipIdx.flatMap fun p => framed q.2 p.2 p.1.1 p.1.2) ++
        [.line [] (.closing op)])
termination_by op
decreasing_by exact Operation.sizeOf_lt ‹_› ‹_› ‹_›

/-- The strokes of the operations in the block at a position. -/
def nestedStrokes (region index : ℕ) (b : Block) : List Stroke :=
  b.operations.zipIdx.flatMap fun q => (strokes q.1).map (.below ⟨region, index, q.2⟩)

def blockStrokes (region index : ℕ) (b : Block) : List Stroke :=
  labelStrokes index b ++ .indent :: (nestedStrokes region index b ++ [.dedent])

def regionStrokes (region : ℕ) (r : Region) : List Stroke :=
  separatorStrokes region ++ r.blocks.zipIdx.flatMap fun p => blockStrokes region p.2 p.1

lemma strokes_of_leaf {op : Operation} (h : op.regions = []) :
    strokes op = [.line [] (.whole op)] := by
  rw [strokes, if_pos (List.isEmpty_iff.mpr h)]

lemma strokes_of_regions {op : Operation} (h : op.regions ≠ []) : strokes op =
    .line [] (.opening op) ::
      (op.regions.zipIdx.flatMap (fun q => regionStrokes q.2 q.1) ++
        [.line [] (.closing op)]) := by
  rw [strokes, if_neg (by simpa using h)]
  simp only [regionStrokes, blockStrokes, nestedStrokes, framed, List.zipIdx_map, List.flatMap_map,
    Prod.map_fst, Prod.map_snd, id_eq]

/-! ### Levels -/

def levelAfter (level : ℕ) (es : List Stroke) : ℕ := es.foldl Stroke.after level

/-- Each stroke with the level at which it is made. -/
def leveled : ℕ → List Stroke → List (ℕ × Stroke)
  | _, [] => []
  | level, e :: es => (level, e) :: leveled (e.after level) es

@[simp] lemma levelAfter_nil (level : ℕ) : levelAfter level [] = level := rfl

@[simp] lemma levelAfter_cons (level : ℕ) (e : Stroke) (es : List Stroke) :
    levelAfter level (e :: es) = levelAfter (e.after level) es := rfl

lemma levelAfter_append (level : ℕ) (es es' : List Stroke) :
    levelAfter level (es ++ es') = levelAfter (levelAfter level es) es' := List.foldl_append

lemma leveled_append (level : ℕ) (es es' : List Stroke) :
    leveled level (es ++ es') = leveled level es ++ leveled (levelAfter level es) es' := by
  induction es generalizing level with
  | nil => rfl
  | cons e es ih => rw [List.cons_append, leveled, ih, leveled, List.cons_append, levelAfter_cons]

lemma levelAfter_below (level : ℕ) (hop : Hop) (es : List Stroke) :
    levelAfter level (es.map (.below hop)) = levelAfter level es := by
  induction es generalizing level with
  | nil => rfl
  | cons e es ih => rw [List.map_cons, levelAfter_cons, levelAfter_cons, ih, e.after_below]

lemma leveled_below (level : ℕ) (hop : Hop) (es : List Stroke) :
    leveled level (es.map (.below hop)) =
      (leveled level es).map fun e => (e.1, e.2.below hop) := by
  induction es generalizing level with
  | nil => rfl
  | cons e es ih => rw [List.map_cons, leveled, leveled, List.map_cons, ih, e.after_below]

section

variable {α : Type} {level : ℕ} {g : α → List Stroke} {l : List α}
  (h : ∀ a ∈ l, levelAfter level (g a) = level)

include h

lemma levelAfter_flatMap : levelAfter level (l.flatMap g) = level := by
  induction l with
  | nil => rfl
  | cons a l ih =>
    rw [List.flatMap_cons, levelAfter_append, h a (.head _), ih fun b hb => h b (.tail _ hb)]

lemma leveled_flatMap : leveled level (l.flatMap g) = l.flatMap fun a => leveled level (g a) := by
  induction l with
  | nil => rfl
  | cons a l ih =>
    rw [List.flatMap_cons, leveled_append, h a (.head _), ih fun b hb => h b (.tail _ hb),
      List.flatMap_cons]

end

/-! ### Back where it began -/

lemma levelAfter_labelStrokes (level index : ℕ) (b : Block) :
    levelAfter level (labelStrokes index b) = level := by
  rw [labelStrokes]
  split <;> rfl

lemma levelAfter_separatorStrokes (level region : ℕ) :
    levelAfter level (separatorStrokes region) = level := by
  rw [separatorStrokes]
  split <;> rfl

lemma levelAfter_nestedStrokes {level : ℕ} {b : Block}
    (h : ∀ c ∈ b.operations, levelAfter level (strokes c) = level) (region index : ℕ) :
    levelAfter level (nestedStrokes region index b) = level :=
  levelAfter_flatMap fun q hq => by
    rw [levelAfter_below, h q.1 (List.fst_mem_of_mem_zipIdx hq)]

lemma levelAfter_blockStrokes {level : ℕ} {b : Block}
    (h : ∀ c ∈ b.operations, levelAfter (level + 1) (strokes c) = level + 1)
    (region index : ℕ) : levelAfter level (blockStrokes region index b) = level := by
  rw [blockStrokes, levelAfter_append, levelAfter_labelStrokes, levelAfter_cons, Stroke.after,
    levelAfter_append, levelAfter_nestedStrokes h]
  rfl

lemma levelAfter_regionStrokes {level : ℕ} {r : Region}
    (h : ∀ b ∈ r.blocks, ∀ c ∈ b.operations, levelAfter (level + 1) (strokes c) = level + 1)
    (region : ℕ) : levelAfter level (regionStrokes region r) = level := by
  rw [regionStrokes, levelAfter_append, levelAfter_separatorStrokes]
  exact levelAfter_flatMap fun p hp =>
    levelAfter_blockStrokes (h p.1 (List.fst_mem_of_mem_zipIdx hp)) region p.2

lemma levelAfter_strokes (level : ℕ) (op : Operation) : levelAfter level (strokes op) = level := by
  induction op using Operation.nested_induction generalizing level with
  | nest op ih =>
    by_cases hregions : op.regions = []
    · rw [strokes_of_leaf hregions]
      rfl
    · have hregion : ∀ q ∈ op.regions.zipIdx,
          levelAfter level (regionStrokes q.2 q.1) = level := fun q hq =>
        levelAfter_regionStrokes (fun b hb c hc =>
          ih q.1 (List.fst_mem_of_mem_zipIdx hq) b hb c hc (level + 1)) q.2
      rw [strokes_of_regions hregions, levelAfter_cons, Stroke.after, levelAfter_append,
        levelAfter_flatMap hregion]
      rfl

/-! ### Strokes with their levels -/

lemma leveled_labelStrokes (level index : ℕ) (b : Block) :
    leveled level (labelStrokes index b) = (labelStrokes index b).map fun e => (level, e) := by
  rw [labelStrokes]
  split <;> rfl

lemma leveled_separatorStrokes (level region : ℕ) :
    leveled level (separatorStrokes region) =
      (separatorStrokes region).map fun e => (level, e) := by
  rw [separatorStrokes]
  split <;> rfl

lemma leveled_nestedStrokes (level region index : ℕ) (b : Block) :
    leveled level (nestedStrokes region index b) = b.operations.zipIdx.flatMap fun q =>
      (leveled level (strokes q.1)).map fun e => (e.1, e.2.below ⟨region, index, q.2⟩) := by
  rw [nestedStrokes, leveled_flatMap fun q _ => by rw [levelAfter_below, levelAfter_strokes]]
  exact List.flatMap_congr fun q _ => leveled_below ..

lemma leveled_blockStrokes (level region index : ℕ) (b : Block) :
    leveled level (blockStrokes region index b) =
      leveled level (labelStrokes index b) ++
        (level, .indent) ::
          (leveled (level + 1) (nestedStrokes region index b) ++ [(level + 1, .dedent)]) := by
  rw [blockStrokes, leveled_append, levelAfter_labelStrokes, leveled, Stroke.after,
    leveled_append, levelAfter_nestedStrokes fun c _ => levelAfter_strokes (level + 1) c]
  rfl

lemma leveled_regionStrokes (level region : ℕ) (r : Region) :
    leveled level (regionStrokes region r) =
      leveled level (separatorStrokes region) ++
        r.blocks.zipIdx.flatMap fun p => leveled level (blockStrokes region p.2 p.1) := by
  rw [regionStrokes, leveled_append, levelAfter_separatorStrokes,
    leveled_flatMap fun p _ => levelAfter_blockStrokes (fun c _ => levelAfter_strokes _ c) ..]

lemma leveled_strokes_of_regions {op : Operation} (h : op.regions ≠ []) (level : ℕ) :
    leveled level (strokes op) =
      (level, .line [] (.opening op)) ::
        (op.regions.zipIdx.flatMap (fun q => leveled level (regionStrokes q.2 q.1)) ++
          [(level, .line [] (.closing op))]) := by
  have hregion : ∀ q ∈ op.regions.zipIdx, levelAfter level (regionStrokes q.2 q.1) = level :=
    fun q _ => levelAfter_regionStrokes (fun _ _ c _ => levelAfter_strokes _ c) q.2
  rw [strokes_of_regions h, leveled, Stroke.after, leveled_append, leveled_flatMap hregion,
    levelAfter_flatMap hregion]
  rfl

/-! ### What is written -/

/-- The slots that are filled, with their levels. -/
def filled (l : List (ℕ × Stroke)) : List (ℕ × Slot) :=
  l.filterMap fun e => e.2.slot?.map fun slot => (e.1, slot)

lemma filled_append (l l' : List (ℕ × Stroke)) : filled (l ++ l') = filled l ++ filled l' :=
  List.filterMap_append

lemma filled_cons_line (level : ℕ) (path : List Hop) (slot : Slot) (l : List (ℕ × Stroke)) :
    filled ((level, .line path slot) :: l) = (level, slot) :: filled l := rfl

lemma filled_flatMap {α : Type} (g : α → List (ℕ × Stroke)) (l : List α) :
    filled (l.flatMap g) = l.flatMap fun a => filled (g a) := List.filterMap_flatMap

lemma filled_labelStrokes (level index : ℕ) (b : Block) :
    filled (leveled level (labelStrokes index b)) = labelSlots level index b := by
  rw [labelStrokes, labelSlots]
  split <;> rfl

lemma filled_separatorStrokes (level region : ℕ) :
    filled (leveled level (separatorStrokes region)) =
      if 0 < region then [(level, .separator)] else [] := by
  rw [separatorStrokes]
  split <;> rfl

/-- Where an operation stands in the tree changes nothing of what it fills. -/
lemma filled_nestedStrokes (level region index : ℕ) (b : Block) :
    filled (leveled level (nestedStrokes region index b)) =
      b.operations.flatMap fun c => filled (leveled level (strokes c)) := by
  have hbelow (hop : Hop) (l : List (ℕ × Stroke)) :
      filled (l.map fun e => (e.1, e.2.below hop)) = filled l := by
    rw [filled, List.filterMap_map]
    simp only [Function.comp_def, Stroke.slot?_below]
    rfl
  calc filled (leveled level (nestedStrokes region index b))
      = b.operations.zipIdx.flatMap fun q => filled (leveled level (strokes q.1)) := by
        rw [leveled_nestedStrokes, filled_flatMap]
        simp only [hbelow]
    _ = _ := by rw [flatMap_eq_zipIdx _ b.operations]

lemma filled_strokes (level : ℕ) (op : Operation) :
    filled (leveled level (strokes op)) = slots false level op := by
  induction op using Operation.nested_induction generalizing level with
  | nest op ih =>
    by_cases hregions : op.regions = []
    · rw [strokes_of_leaf hregions, slots_of_hidden (by simp [hregions])]
      rfl
    · have hblock : ∀ r ∈ op.regions, ∀ b ∈ r.blocks, ∀ i j,
          filled (leveled level (blockStrokes i j b)) =
            labelSlots level j b ++ b.operations.flatMap (slots false (level + 1)) := by
        intro r hr b hb i j
        have hnested : filled (leveled (level + 1) (nestedStrokes i j b)) =
            b.operations.flatMap (slots false (level + 1)) :=
          (filled_nestedStrokes ..).trans
            (List.flatMap_congr fun c hc => ih r hr b hb c hc (level + 1))
        rw [leveled_blockStrokes, filled_append, filled_labelStrokes, ← hnested]
        exact congrArg _ ((filled_append _ _).trans (List.append_nil _))
      have hregion : ∀ q ∈ op.regions.zipIdx, filled (leveled level (regionStrokes q.2 q.1)) =
          (if 0 < q.2 then [(level, .separator)] else []) ++ regionSlots false level q.1 := by
        intro q hq
        rw [leveled_regionStrokes, filled_append, filled_separatorStrokes, filled_flatMap]
        exact congrArg _ (List.flatMap_congr fun p hp =>
          hblock q.1 (List.fst_mem_of_mem_zipIdx hq) p.1 (List.fst_mem_of_mem_zipIdx hp) q.2 p.2)
      rw [leveled_strokes_of_regions hregions, slots_of_shown (by simp [hregions]),
        Pen.intercalate_map_eq, filled_cons_line, filled_append, filled_flatMap,
        List.flatMap_congr hregion]
      rfl

/-! ### Headers -/

/-- The operation whose header stands in the slot. -/
def Slot.begun? : Slot → Option Operation
  | whole op => some op
  | opening op => some op
  | _ => none

/-- The operation whose header is written. -/
def Stroke.begun? (e : Stroke) : Option Operation := e.slot?.bind Slot.begun?

lemma filterMap_begun?_slots (level : ℕ) (op : Operation) :
    (slots false level op).filterMap (fun p => p.2.begun?) = op.walk := by
  induction op using Operation.children_induction generalizing level with
  | nest op ih =>
    rw [Operation.walk_eq]
    by_cases hregions : op.regions = []
    · rw [slots_of_hidden (by simp [hregions]), Operation.children, hregions]
      rfl
    · rw [filterMap_slots_of_shown (fun _ _ => rfl) rfl (by simp [hregions]),
        List.flatMap_congr fun c hc => ih c hc (level + 1)]
      exact List.append_nil _

lemma map_snd_leveled (level : ℕ) (es : List Stroke) : (leveled level es).map Prod.snd = es := by
  induction es generalizing level with
  | nil => rfl
  | cons e es ih => rw [leveled, List.map_cons, ih]

lemma filterMap_begun?_strokes (op : Operation) :
    (strokes op).filterMap Stroke.begun? = op.walk := by
  have hfilled (l : List (ℕ × Stroke)) : (l.map Prod.snd).filterMap Stroke.begun? =
      (filled l).filterMap fun p => p.2.begun? := by
    rw [filled, List.filterMap_filterMap, List.filterMap_map]
    refine List.filterMap_congr fun e _ => ?_
    rw [Option.bind_map]
    rfl
  rw [← filterMap_begun?_slots 0, ← filled_strokes, ← hfilled, map_snd_leveled]

/-! ### Places -/

/-- The line in a slot is one of the operation: its header, a label of one of its blocks, what
separates its regions, or its closing line. -/
inductive Slot.Belongs (op : Operation) : Slot → Prop
  | whole : op.regions = [] → Belongs op (.whole op)
  | opening : op.regions ≠ [] → Belongs op (.opening op)
  | separator : 2 ≤ op.regions.length → Belongs op .separator
  | label {r : Region} {index : ℕ} {b : Block} : r ∈ op.regions → r.blocks[index]? = some b →
      0 < index ∨ b.arguments ≠ [] → Belongs op (.label index b)
  | closing : op.regions ≠ [] → Belongs op (.closing op)

/-- A stroke in an operation at a level is made where the tree has it: a line is one of the
operation at the end of its path and stands as much deeper as that is long, and the pen does not
move out from level zero. -/
inductive Stroke.Placed (op : Operation) (level : ℕ) : ℕ × Stroke → Prop
  | indent (l : ℕ) : Placed op level (l, .indent)
  | dedent {l : ℕ} : 0 < l → Placed op level (l, .dedent)
  | line {path : List Hop} {slot : Slot} {o : Operation} : op.at? path = some o →
      slot.Belongs o → Placed op level (level + path.length, .line path slot)

lemma Stroke.Placed.below {op c : Operation} {level : ℕ} {hop : Hop} {e : ℕ × Stroke}
    (hchild : op.child? hop = some c) (h : Placed c (level + 1) e) :
    Placed op level (e.1, e.2.below hop) := by
  cases h with
  | indent l => exact .indent l
  | dedent hl => exact .dedent hl
  | @line path slot o hat hslot =>
    have hpath : op.at? (hop :: path) = some o := by
      rw [Operation.at?, hchild]
      exact hat
    have hlevel : level + 1 + path.length = level + (hop :: path).length := by
      rw [List.length_cons, Nat.add_assoc, Nat.add_comm 1]
    change Placed op level (level + 1 + path.length, .line (hop :: path) slot)
    rw [hlevel]
    exact .line hpath hslot

lemma Stroke.Placed.line_inv {op : Operation} {level l : ℕ} {path : List Hop} {slot : Slot}
    (h : Placed op level (l, .line path slot)) :
    l = level + path.length ∧ ∃ o, op.at? path = some o ∧ slot.Belongs o := by
  cases h with
  | line hat hslot => exact ⟨rfl, _, hat, hslot⟩

lemma Stroke.Placed.dedent_inv {op : Operation} {level l : ℕ}
    (h : Placed op level (l, .dedent)) : 0 < l := by
  cases h with
  | dedent hl => exact hl

lemma Stroke.Placed.here {op : Operation} {level : ℕ} {slot : Slot} (h : slot.Belongs op) :
    Placed op level (level, .line [] slot) :=
  @line op level [] slot op rfl h

section

variable {op : Operation} {level region : ℕ} {r : Region} (hr : op.regions[region]? = some r)

include hr

lemma placed_of_mem_separatorStrokes {e : ℕ × Stroke}
    (he : e ∈ leveled level (separatorStrokes region)) : Stroke.Placed op level e := by
  rw [leveled_separatorStrokes, separatorStrokes] at he
  split at he
  · rename_i hregion
    rw [List.map_singleton, List.mem_singleton] at he
    subst he
    have hlength : region < op.regions.length := (List.getElem?_eq_some_iff.mp hr).1
    exact .here (.separator (by omega))
  · cases he

variable {index : ℕ} {b : Block} (hb : r.blocks[index]? = some b)

include hb

lemma placed_of_mem_labelStrokes {e : ℕ × Stroke}
    (he : e ∈ leveled level (labelStrokes index b)) : Stroke.Placed op level e := by
  rw [leveled_labelStrokes, labelStrokes] at he
  split at he
  · cases he
  · rename_i hlabel
    rw [List.map_singleton, List.mem_singleton] at he
    subst he
    refine .here (.label (List.mem_of_getElem? hr) hb ?_)
    rw [List.isEmpty_iff] at hlabel
    by_cases hindex : index = 0
    · exact .inr fun harguments => hlabel ⟨hindex, harguments⟩
    · exact .inl (Nat.pos_of_ne_zero hindex)

lemma placed_of_mem_blockStrokes
    (ih : ∀ c ∈ b.operations, ∀ e ∈ leveled (level + 1) (strokes c),
      Stroke.Placed c (level + 1) e) {e : ℕ × Stroke}
    (he : e ∈ leveled level (blockStrokes region index b)) : Stroke.Placed op level e := by
  rw [leveled_blockStrokes, List.mem_append, List.mem_cons, List.mem_append,
    List.mem_singleton] at he
  rcases he with hlabel | rfl | hnested | rfl
  · exact placed_of_mem_labelStrokes hr hb hlabel
  · exact .indent level
  · rw [leveled_nestedStrokes, List.mem_flatMap] at hnested
    obtain ⟨q, hq, hnested⟩ := hnested
    obtain ⟨e', he', rfl⟩ := List.mem_map.mp hnested
    have hleads : op.Leads ⟨region, index, q.2⟩ r b q.1 :=
      ⟨hr, hb, List.mem_zipIdx_iff_getElem?.mp hq⟩
    exact .below (Operation.child?_eq_some.mpr ⟨r, b, hleads⟩)
      (ih q.1 (List.fst_mem_of_mem_zipIdx hq) e' he')
  · exact .dedent level.succ_pos

end

lemma placed_of_mem_strokes {op : Operation} {level : ℕ} {e : ℕ × Stroke}
    (he : e ∈ leveled level (strokes op)) : Stroke.Placed op level e := by
  induction op using Operation.nested_induction generalizing level e with
  | nest op ih =>
    by_cases hregions : op.regions = []
    · rw [strokes_of_leaf hregions] at he
      obtain rfl := List.mem_singleton.mp he
      exact .here (.whole hregions)
    · rw [leveled_strokes_of_regions hregions, List.mem_cons, List.mem_append, List.mem_flatMap,
        List.mem_singleton] at he
      rcases he with rfl | ⟨q, hq, he⟩ | rfl
      · exact .here (.opening hregions)
      · have hr : op.regions[q.2]? = some q.1 := List.mem_zipIdx_iff_getElem?.mp hq
        rw [leveled_regionStrokes, List.mem_append, List.mem_flatMap] at he
        rcases he with hseparator | ⟨p, hp, hblock⟩
        · exact placed_of_mem_separatorStrokes hr hseparator
        · exact placed_of_mem_blockStrokes hr (List.mem_zipIdx_iff_getElem?.mp hp)
            (fun c hc e he => ih q.1 (List.mem_of_getElem? hr) p.1 (List.fst_mem_of_mem_zipIdx hp)
              c hc he) hblock
      · exact .here (.closing hregions)

/-! ### The pen -/

namespace Pen

variable {σ ε : Type}

section

variable (put : σ → String → Except ε σ) (s : Session)

def stroke (p : Pen σ) : Stroke → Except ε (Pen σ)
  | .indent => .ok p.indent
  | .dedent => .ok p.dedent
  | .line _ slot => p.line put (slot.front s ++ slot.back s)

/-- The pen makes strokes one after the other, until a line is refused. -/
def follow (p : Pen σ) (es : List Stroke) : Except ε (Pen σ) := es.foldlM (stroke put s) p

def atLevel (p : Pen σ) (level : ℕ) : Pen σ := { p with margin := { p.margin with level := level } }

end

variable {put : σ → String → Except ε σ} {s : Session}

/-- Strokes write their lines at their levels and leave the pen at the level behind them. -/
lemma follow_eq (p : Pen σ) (es : List Stroke) :
    p.follow put s es = do
      let q ← p.writes put ((filled (leveled p.margin.level es)).map s.line)
      return q.atLevel (levelAfter p.margin.level es) := by
  induction es generalizing p with
  | nil => rfl
  | cons e es ih =>
    -- Lines have levels of their own, so to move the pen changes nothing of what is written.
    cases e with
    | indent =>
      change p.indent.follow put s es = _
      simp only [ih, writes, bind_assoc, pure_bind]
      rfl
    | dedent =>
      change p.dedent.follow put s es = _
      simp only [ih, writes, bind_assoc, pure_bind]
      rfl
    | line path slot =>
      let ls := (filled (leveled p.margin.level es)).map s.line
      have hfirst : p.stroke put s (.line path slot) =
          p.writes put [s.line (p.margin.level, slot)] := p.line_eq slot.role _
      calc p.follow put s (.line path slot :: es)
          = p.writes put [s.line (p.margin.level, slot)] >>= fun q => q.follow put s es := by
            rw [follow, List.foldlM_cons, hfirst]
            rfl
        _ = p.writes put [s.line (p.margin.level, slot)] >>= fun q => do
              let q' ← q.writes put ls
              return q'.atLevel (levelAfter p.margin.level es) := by
            cases hq : p.writes put [s.line (p.margin.level, slot)] with
            | error e => rfl
            | ok q =>
              change q.follow put s es = _
              rw [ih, margin_of_writes hq]
              rfl
        _ = _ := by
            rw [← bind_assoc, ← writes_append]
            rfl

lemma margin_of_follow {p q : Pen σ} {es : List Stroke} (h : p.follow put s es = .ok q) :
    q.margin = { p.margin with level := levelAfter p.margin.level es } := by
  rw [follow_eq] at h
  obtain ⟨q', hq', hq⟩ := bind_eq_ok h
  cases hq
  rw [atLevel, margin_of_writes hq']

/-- To print an operation is to follow its strokes. -/
lemma operation_eq_follow (hs : s.flags.skipRegions = false) (op : Operation) (p : Pen σ) :
    p.operation put s op = p.follow put s (strokes op) := by
  have hlines : (filled (leveled p.margin.level (strokes op))).map s.line =
      s.lines p.margin.level op := by
    rw [filled_strokes, lines_eq_slots, hs]
  rw [operation_eq, follow_eq, hlines, levelAfter_strokes]
  cases hq : p.writes put (s.lines p.margin.level op) with
  | error e => rfl
  | ok q =>
    obtain ⟨margin, sink⟩ := q
    obtain rfl : margin = p.margin := margin_of_writes hq
    rfl

end Pen

/-- **Printing goes through the tree in the order of the walk, and as deep as it is nested.** In any
session that shows regions and from any level on, to print an operation is to follow its strokes.
The headers that they write are those of the operations in the walk, in its order. When a line is
written, the pen stands as many levels deeper than in the beginning as it takes steps down to the
operation whose line it is. The pen never moves out at level zero, and once an operation is printed
it stands where it stood before. -/
theorem printing_follows_tree {σ ε : Type} (put : σ → String → Except ε σ) (s : Session)
    (op : Operation) (p : Pen σ) :
    let shown : Session := { s with flags := { s.flags with skipRegions := false } }
    p.operation put shown op = p.follow put shown (strokes op) ∧
    (strokes op).filterMap Stroke.begun? = op.walk ∧
    (∀ es e es' q, strokes op = es ++ e :: es' → p.follow put shown es = .ok q →
      (∀ path slot, e = .line path slot →
        q.margin = { p.margin with level := p.margin.level + path.length } ∧
        ∃ o, op.at? path = some o ∧ slot.Belongs o) ∧
      (e = .dedent → 0 < q.margin.level)) ∧
    ∀ q, p.operation put shown op = .ok q → q.margin = p.margin := by
  intro shown
  refine ⟨Pen.operation_eq_follow rfl op p, filterMap_begun?_strokes op,
    fun es e es' q hstrokes hq => ?_, fun q hq => ?_⟩
  · let level := levelAfter p.margin.level es
    have hmargin : q.margin = { p.margin with level := level } := Pen.margin_of_follow hq
    have hmade : (level, e) ∈ leveled p.margin.level (strokes op) := by
      rw [hstrokes, leveled_append]
      exact List.mem_append_right _ (.head _)
    have hplaced := placed_of_mem_strokes hmade
    refine ⟨fun path slot he => ?_, fun he => ?_⟩
    · obtain ⟨hlevel, o, hat, hslot⟩ := (he ▸ hplaced).line_inv
      exact ⟨hlevel ▸ hmargin, o, hat, hslot⟩
    · rw [hmargin]
      exact (he ▸ hplaced).dedent_inv
  · exact Pen.margin_of_writes ((p.operation_eq shown op).symm.trans hq)

end OpTree.Print
