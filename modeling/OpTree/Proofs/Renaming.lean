import OpTree.Print.Lines
import OpTree.Proofs.Tree
import Mathlib.Data.Set.Function

/-!
The text form does not depend on the ids of values. If the ids of a program are renamed so that
different ids stay different, every definition keeps its place and every use its definition; names
are given by place, and users are listed by name.
-/

namespace OpTree

open OpTree.IR OpTree.Print

variable (f : ValueId → ValueId)

/-! ### Renaming -/

namespace IR

/-- The value under another id. -/
def Value.rename (v : Value) : Value := { v with id := f v.id }

namespace Operation

/-- The tree with the ids of all results, arguments and operands renamed. -/
def rename (op : Operation) : Operation :=
  { op with
    operands := op.operands.map (Value.rename f)
    results := op.results.map (Value.rename f)
    regions := op.regions.map fun r =>
      { blocks := r.blocks.map fun b =>
          { arguments := b.arguments.map (Value.rename f)
            operations := b.operations.map rename } } }
termination_by op
decreasing_by exact sizeOf_lt ‹_› ‹_› ‹_›

/-- The ids that occur in a tree, defined or used. -/
def ids (op : Operation) : List ValueId :=
  op.results.map Value.id ++ op.operands.map Value.id ++ op.regions.flatMap fun r =>
    r.blocks.flatMap fun b => b.arguments.map Value.id ++ b.operations.flatMap ids
termination_by op
decreasing_by exact sizeOf_lt ‹_› ‹_› ‹_›

end Operation

def Block.rename (b : Block) : Block where
  arguments := b.arguments.map (Value.rename f)
  operations := b.operations.map (Operation.rename f)

def Region.rename (r : Region) : Region := { blocks := r.blocks.map (Block.rename f) }

namespace Operation

variable (op : Operation)

@[simp] lemma rename_name : (op.rename f).name = op.name := by rw [rename]
@[simp] lemma rename_operands :
    (op.rename f).operands = op.operands.map (Value.rename f) := by rw [rename]
@[simp] lemma rename_results :
    (op.rename f).results = op.results.map (Value.rename f) := by rw [rename]
@[simp] lemma rename_attributes : (op.rename f).attributes = op.attributes := by rw [rename]
@[simp] lemma rename_location : (op.rename f).location = op.location := by rw [rename]
@[simp] lemma rename_regions :
    (op.rename f).regions = op.regions.map (Region.rename f) := by rw [rename]; rfl

lemma children_rename : (op.rename f).children = op.children.map (rename f) := by
  simp only [children, rename_regions, Region.rename, Block.rename, List.flatMap_map,
    List.map_flatMap]

lemma walk_rename : (op.rename f).walk = op.walk.map (rename f) :=
  walk_of_children (children_rename f) op

variable {op}

lemma id_mem_of_result {v : Value} (hv : v ∈ op.results) : v.id ∈ op.ids := by
  rw [ids]
  simp only [List.mem_append]
  exact Or.inl (Or.inl (List.mem_map_of_mem hv))

lemma id_mem_of_operand {v : Value} (hv : v ∈ op.operands) : v.id ∈ op.ids := by
  rw [ids]
  simp only [List.mem_append]
  exact Or.inl (Or.inr (List.mem_map_of_mem hv))

lemma id_mem_of_argument {r : Region} {b : Block} {v : Value} (hr : r ∈ op.regions)
    (hb : b ∈ r.blocks) (hv : v ∈ b.arguments) : v.id ∈ op.ids := by
  rw [ids]
  refine List.mem_append_right _ (List.mem_flatMap.mpr ⟨r, hr, List.mem_flatMap.mpr ⟨b, hb, ?_⟩⟩)
  exact List.mem_append_left _ (List.mem_map_of_mem hv)

lemma ids_subset_of_nested {r : Region} {b : Block} {c : Operation} (hr : r ∈ op.regions)
    (hb : b ∈ r.blocks) (hc : c ∈ b.operations) : c.ids ⊆ op.ids := by
  intro i hi
  rw [ids]
  refine List.mem_append_right _ (List.mem_flatMap.mpr ⟨r, hr, List.mem_flatMap.mpr ⟨b, hb, ?_⟩⟩)
  exact List.mem_append_right _ (List.mem_flatMap.mpr ⟨c, hc, hi⟩)

lemma ids_subset_of_walk {o : Operation} (ho : o ∈ op.walk) : o.ids ⊆ op.ids := by
  induction op using children_induction with
  | nest op ih =>
    rw [walk_eq] at ho
    rcases List.mem_cons.mp ho with rfl | ho
    · exact List.Subset.refl _
    · obtain ⟨c, hc, ho⟩ := List.mem_flatMap.mp ho
      obtain ⟨r, hr, b, hb, hcb⟩ := mem_children.mp hc
      exact List.Subset.trans (ih c hc ho) (ids_subset_of_nested hr hb hcb)

end Operation

end IR

/-! ### Names and users -/

namespace Print

open IR.Operation

variable {f}

lemma filter_rename {S : Set ValueId} (hf : Set.InjOn f S) {i : ValueId} (hi : i ∈ S)
    {es : List (ValueId × String)} (he : ∀ e ∈ es, e.1 ∈ S) :
    ((es.map (Prod.map f id)).filter (·.1 = f i)).map Prod.snd =
      (es.filter (·.1 = i)).map Prod.snd := by
  have hcongr : es.filter (fun e => decide (f e.1 = f i)) = es.filter (·.1 = i) :=
    List.filter_congr fun e hmem => by simp [hf.eq_iff (he e hmem) hi]
  rw [List.filter_map, List.map_map, ← hcongr]
  rfl

variable (f)

/-- The definition under another id. -/
def Definition.rename : Definition → Definition
  | result i => result (f i)
  | argument i => argument (f i)

lemma definitions_rename (op : Operation) :
    definitions (op.rename f) = (definitions op).map (Definition.rename f) := by
  induction op using nested_induction with
  | nest op ih =>
    rw [definitions, definitions]
    simp only [rename_results, rename_regions, Region.rename, Block.rename, List.map_append,
      List.map_map, List.map_flatMap, List.flatMap_map]
    congr 1
    refine List.flatMap_congr fun r hr => List.flatMap_congr fun b hb => ?_
    rw [List.flatMap_congr (ih r hr b hb)]
    rfl

lemma id_mem_of_definition {op : Operation} {d : Definition} (hd : d ∈ definitions op) :
    d.id ∈ op.ids := by
  induction op using nested_induction with
  | nest op ih =>
    rw [definitions] at hd
    rcases List.mem_append.mp hd with hd | hd
    · obtain ⟨v, hv, rfl⟩ := List.mem_map.mp hd
      exact id_mem_of_result hv
    · obtain ⟨r, hr, hd⟩ := List.mem_flatMap.mp hd
      obtain ⟨b, hb, hd⟩ := List.mem_flatMap.mp hd
      rcases List.mem_append.mp hd with hd | hd
      · obtain ⟨v, hv, rfl⟩ := List.mem_map.mp hd
        exact id_mem_of_argument hr hb hv
      · obtain ⟨c, hc, hd⟩ := List.mem_flatMap.mp hd
        exact ids_subset_of_nested hr hb hc (ih r hr b hb c hc hd)

lemma numbered_rename (n k : ℕ) (ds : List Definition) :
    numbered n k (ds.map (Definition.rename f)) = (numbered n k ds).map (Prod.map f id) := by
  induction ds generalizing n k with
  | nil => rfl
  | cons d ds ih => cases d <;> simp [numbered, Definition.rename, ih]

lemma map_fst_numbered (n k : ℕ) (ds : List Definition) :
    (numbered n k ds).map Prod.fst = ds.map Definition.id := by
  induction ds generalizing n k with
  | nil => rfl
  | cons d ds ih => cases d <;> simp [numbered, Definition.id, ih]

lemma entries_rename (root : Operation) :
    (Names.ofOperation (root.rename f)).entries =
      (Names.ofOperation root).entries.map (Prod.map f id) := by
  simp only [Names.ofOperation, definitions_rename, numbered_rename]

lemma id_mem_of_entry {root : Operation} {e : ValueId × String}
    (he : e ∈ (Names.ofOperation root).entries) : e.1 ∈ root.ids := by
  have hmem : e.1 ∈ (definitions root).map Definition.id := by
    rw [← map_fst_numbered 0 0]
    exact List.mem_map_of_mem he
  obtain ⟨d, hd, hde⟩ := List.mem_map.mp hmem
  exact hde ▸ id_mem_of_definition hd

lemma find?_eq_head? (n : Names) (i : ValueId) :
    n.find? i = ((n.entries.filter (·.1 = i)).map Prod.snd).head? := by
  rw [Names.find?, List.head?_map, List.head?_filter]

variable {f} {root : Operation} (hf : Set.InjOn f {i | i ∈ root.ids})

include hf

/-- A value keeps its name. -/
theorem name_rename {v : Value} (hv : v.id ∈ root.ids) :
    (Names.ofOperation (root.rename f)).name (v.rename f) = (Names.ofOperation root).name v := by
  simp only [Names.name, find?_eq_head?, entries_rename, Value.rename]
  rw [filter_rename hf hv fun e he => id_mem_of_entry he]

lemma identity_rename {o : Operation} (ho : o ∈ root.walk) :
    identity (Names.ofOperation (root.rename f)) (o.rename f) =
      identity (Names.ofOperation root) o := by
  rw [identity, identity, rename_results, rename_name]
  cases hr : o.results with
  | nil => rfl
  | cons v vs =>
    have hv : v.id ∈ o.ids := id_mem_of_result (by simp [hr])
    exact name_rename hf (ids_subset_of_walk ho hv)

lemma uses_rename :
    (Uses.ofOperation (root.rename f) (.ofOperation (root.rename f))).entries =
      (Uses.ofOperation root (.ofOperation root)).entries.map (Prod.map f id) := by
  simp only [Uses.ofOperation, walk_rename, List.flatMap_map, List.map_flatMap, rename_operands,
    List.map_map]
  refine List.flatMap_congr fun o ho => List.map_congr_left fun v _ => ?_
  simp only [Function.comp_apply, Value.rename, Prod.map, id_eq, identity_rename hf ho]

/-- An operation keeps its users. -/
theorem users_rename {op : Operation} (hop : ∀ v ∈ op.results, v.id ∈ root.ids) :
    (Uses.ofOperation (root.rename f) (.ofOperation (root.rename f))).users (op.rename f) =
      (Uses.ofOperation root (.ofOperation root)).users op := by
  have hmem : ∀ e ∈ (Uses.ofOperation root (.ofOperation root)).entries, e.1 ∈ root.ids := by
    intro e he
    obtain ⟨o, ho, he⟩ := List.mem_flatMap.mp he
    obtain ⟨v, hv, rfl⟩ := List.mem_map.mp he
    exact ids_subset_of_walk ho (id_mem_of_operand hv)
  simp only [Uses.users, Uses.ofId, rename_results, List.flatMap_map, uses_rename hf]
  congr 1
  refine List.flatMap_congr fun v hv => ?_
  rw [Value.rename, filter_rename hf (hop v hv) hmem]

/-! ### Lines -/

namespace Session

variable (ansi : Bool) (fl : Flags)

lemma nameList_rename {vs : List Value} (hvs : ∀ v ∈ vs, v.id ∈ root.ids) :
    (ofOperation ansi fl (root.rename f)).nameList (vs.map (Value.rename f)) =
      (ofOperation ansi fl root).nameList vs := by
  simp only [nameList, ofOperation, List.map_map]
  congr 1
  exact List.map_congr_left fun v hv => name_rename hf (hvs v hv)

lemma head_rename {op : Operation} (hop : op.ids ⊆ root.ids) :
    (ofOperation ansi fl (root.rename f)).head (op.rename f) =
      (ofOperation ansi fl root).head op := by
  have hres := nameList_rename hf ansi fl fun v hv => hop (id_mem_of_result hv)
  have huse := nameList_rename hf ansi fl fun v hv => hop (id_mem_of_operand hv)
  simp only [head, rename_results, rename_operands, rename_name, hres, huse, List.isEmpty_map]
  rfl

lemma usersComment_rename {op : Operation} (hop : op.ids ⊆ root.ids) :
    (ofOperation ansi fl (root.rename f)).usersComment (op.rename f) =
      (ofOperation ansi fl root).usersComment op := by
  have husers := users_rename hf fun v hv => hop (id_mem_of_result hv)
  unfold usersComment ofOperation
  cases fl.valueUsers
  · rfl
  · simp only [if_true, husers]

lemma tail_rename {op : Operation} (hop : op.ids ⊆ root.ids) :
    (ofOperation ansi fl (root.rename f)).tail (op.rename f) =
      (ofOperation ansi fl root).tail op := by
  have hsig : signature (op.rename f) = signature op := by
    simp [signature, Value.rename, Function.comp_def]
  have hattr : attributesText fl (op.rename f) = attributesText fl op := by
    simp [attributesText]
  have hloc : (ofOperation ansi fl (root.rename f)).locationText (op.rename f) =
      (ofOperation ansi fl root).locationText op := by
    rw [locationText, locationText, rename_location]
    rfl
  have hflags : ∀ r, (ofOperation ansi fl r).flags = fl := fun _ => rfl
  simp only [tail, hflags, hattr, hsig, hloc, usersComment_rename hf ansi fl hop]

lemma labelLines_rename (level i : ℕ) {b : Block} (hb : ∀ v ∈ b.arguments, v.id ∈ root.ids) :
    (ofOperation ansi fl (root.rename f)).labelLines level i (b.rename f) =
      (ofOperation ansi fl root).labelLines level i b := by
  have harg : ∀ v ∈ b.arguments,
      (ofOperation ansi fl (root.rename f)).argumentText (v.rename f) =
        (ofOperation ansi fl root).argumentText v := fun v hv => by
    simp only [argumentText, ofOperation, name_rename hf (hb v hv)]
    rfl
  simp only [labelLines, labelText, Block.rename, List.isEmpty_map, List.map_map,
    List.map_congr_left harg, Function.comp_def]

lemma blockLines_rename (level i : ℕ) {bs : List Block} (nested : Block → List Line)
    (hbs : ∀ b ∈ bs, ∀ v ∈ b.arguments, v.id ∈ root.ids) :
    (ofOperation ansi fl (root.rename f)).blockLines level i
        (bs.map fun b => (b.rename f, nested b)) =
      (ofOperation ansi fl root).blockLines level i (bs.map fun b => (b, nested b)) := by
  induction bs generalizing i with
  | nil => rfl
  | cons b bs ih =>
    simp only [List.map_cons, blockLines]
    rw [labelLines_rename hf ansi fl level i (hbs b (by simp)),
      ih (i + 1) fun b hb => hbs b (by simp [hb])]

theorem lines_rename (level : ℕ) {op : Operation} (hop : op.ids ⊆ root.ids) :
    (ofOperation ansi fl (root.rename f)).lines level (op.rename f) =
      (ofOperation ansi fl root).lines level op := by
  induction op using nested_induction generalizing level with
  | nest op ih =>
    rw [lines, lines, head_rename hf ansi fl hop, tail_rename hf ansi fl hop, rename_regions]
    -- the lines nested in a region agree by induction, its labels because names do
    have hregion : ∀ r ∈ op.regions,
        (ofOperation ansi fl (root.rename f)).blockLines level 0 ((r.rename f).blocks.map fun b =>
            (b, b.operations.flatMap ((ofOperation ansi fl (root.rename f)).lines (level + 1)))) =
          (ofOperation ansi fl root).blockLines level 0 (r.blocks.map fun b =>
            (b, b.operations.flatMap ((ofOperation ansi fl root).lines (level + 1)))) := by
      intro r hr
      have hnested : ∀ b ∈ r.blocks, (b.rename f).operations.flatMap
            ((ofOperation ansi fl (root.rename f)).lines (level + 1)) =
          b.operations.flatMap ((ofOperation ansi fl root).lines (level + 1)) := by
        intro b hb
        rw [Block.rename, List.flatMap_map]
        exact List.flatMap_congr fun c hc => ih r hr b hb c hc (level + 1)
          (List.Subset.trans (ids_subset_of_nested hr hb hc) hop)
      rw [Region.rename, List.map_map, ← blockLines_rename hf ansi fl level 0 _
        fun b hb v hv => hop (id_mem_of_argument hr hb hv)]
      congr 1
      exact List.map_congr_left fun b hb => by rw [Function.comp_apply, hnested b hb]
    simp only [List.isEmpty_map, List.map_map, Function.comp_def, List.map_congr_left hregion]
    rfl

end Session

end Print

/-- **The text form does not depend on the ids of values**: renaming them so that the ids that
occur stay different changes nothing in it. -/
theorem text_rename {f : ValueId → ValueId} {op : Operation} (hf : Set.InjOn f {i | i ∈ op.ids})
    (ansi : Bool) (fl : Flags) : text ansi fl (op.rename f) = text ansi fl op := by
  rw [text, text, Print.lines, Print.lines,
    Session.lines_rename hf ansi fl 0 (List.Subset.refl _)]

/-- A program in which the id `1` is defined as a result and again as an argument and the id `9`
is used without being defined. -/
def shadowed : Operation where
  name := "scope"
  results := [⟨⟨1⟩, .index⟩]
  operands := [⟨⟨9⟩, .index⟩]
  regions := [{ blocks := [{
    arguments := [⟨⟨1⟩, .f32⟩]
    operations := [{ name := "use", operands := [⟨⟨1⟩, .f32⟩, ⟨⟨9⟩, .index⟩] }] }] }]

/-- Keeps `1` apart from all other ids, but none of these from each other. -/
def collapse (i : ValueId) : ValueId := if i = ⟨1⟩ then ⟨9⟩ else ⟨4⟩

theorem text_rename_shadowed :
    Set.InjOn collapse {i | i ∈ shadowed.ids} ∧
    text true { valueUsers := true, useColors := true } (shadowed.rename collapse) =
      text true { valueUsers := true, useColors := true } shadowed := by
  have hids : ∀ i ∈ shadowed.ids, i = ⟨1⟩ ∨ i = ⟨9⟩ := by
    intro i hi
    simp only [shadowed, Operation.ids, List.map_cons, List.map_nil, List.flatMap_cons,
      List.flatMap_nil, List.append_nil, List.nil_append, List.cons_append, List.mem_cons,
      List.not_mem_nil, or_false] at hi
    rcases hi with h | h | h | h | h
    · exact Or.inl h
    · exact Or.inr h
    · exact Or.inl h
    · exact Or.inl h
    · exact Or.inr h
  have hf : Set.InjOn collapse {i | i ∈ shadowed.ids} := by
    intro i hi j hj hij
    rcases hids i hi with rfl | rfl <;> rcases hids j hj with rfl | rfl
    · rfl
    · exact absurd hij (by decide)
    · exact absurd hij (by decide)
    · rfl
  exact ⟨hf, text_rename hf _ _⟩

end OpTree
