import OpTree.Pass.StripDebugInfo
import OpTree.Proofs.Paths
import OpTree.Proofs.Unprinted

/-!
Editing a tree in place. One operation after the other is changed, each before what is in it, and
something is remembered from each change to the next. What an edit makes of a tree is what it makes
of the operations that a walk meets, taken one by one: none is passed over or changed twice, and
regions, blocks and arguments stay as they are. The pass that makes locations unknown is an edit
that remembers how many it has met.
-/

namespace OpTree

open OpTree.IR

/-! ### Loops with a memory -/

section

variable {σ α β γ : Type}

lemma map_mapM (v : β → γ) (l : List α) (g : α → StateM σ β) :
    List.map v <$> l.mapM g = l.mapM fun a => v <$> g a := by
  induction l with
  | nil => simp
  | cons a l ih => simp [List.mapM_cons, ← ih]

lemma map_fst_mapM {l : List α} {g : α → StateM σ β} {v : β → γ} {w : α → γ}
    (h : ∀ a ∈ l, ∀ s, v ((g a).run s).1 = w a) (s : σ) :
    ((l.mapM g).run s).1.map v = l.map w := by
  induction l generalizing s with
  | nil => rfl
  | cons a l ih =>
    have hrest := ih (fun b hb => h b (.tail _ hb)) ((g a).run s).2
    rw [List.mapM_cons, List.map_cons, ← h a (.head _) s, ← hrest]
    rfl

lemma fst_mapM {l : List α} {g : α → StateM σ β} {w : α → β}
    (h : ∀ a ∈ l, ∀ s, ((g a).run s).1 = w a) (s : σ) : ((l.mapM g).run s).1 = l.map w := by
  rw [← map_fst_mapM (v := id) h s, List.map_id]

lemma exists_getElem?_mapM (l : List α) (g : α → StateM σ β) (i : ℕ) (s : σ) :
    ∃ t, ((l.mapM g).run s).1[i]? = l[i]?.map fun a => ((g a).run t).1 := by
  induction l generalizing i s with
  | nil => exact ⟨s, rfl⟩
  | cons a l ih =>
    rw [List.mapM_cons]
    cases i with
    | zero => exact ⟨s, rfl⟩
    | succ i => exact ih i ((g a).run s).2

/-- If every turn shows what a loop of its own shows, the loop shows what these loops do one behind
the other. -/
lemma flatMap_mapM {δ ε : Type} {l : List α} {g : α → StateM σ β} {v : β → List ε}
    {w : α → List γ} {f : γ → StateM σ δ} {u : δ → ε}
    (h : ∀ a ∈ l, v <$> g a = List.map u <$> (w a).mapM f) :
    List.flatMap v <$> l.mapM g = List.map u <$> (l.flatMap w).mapM f := by
  induction l with
  | nil => simp
  | cons a l ih =>
    have hrest := ih fun b hb => h b (.tail _ hb)
    calc List.flatMap v <$> (a :: l).mapM g
        = (do return (← v <$> g a) ++ (← List.flatMap v <$> l.mapM g)) := by
          simp [List.mapM_cons]
      _ = (do return (← List.map u <$> (w a).mapM f) ++
            (← List.map u <$> (l.flatMap w).mapM f)) := by
          rw [h a (.head _), hrest]
      _ = List.map u <$> ((a :: l).flatMap w).mapM f := by
          simp [List.flatMap_cons, List.mapM_append]

end

namespace IR

/-! ### Edits -/

/-- Changes of single operations. What is made of an operation may depend on what is remembered
from those before it; its regions are left as they are. -/
structure Edit (σ : Type) where
  change : (op : Operation) → StateM σ { o : Operation // o.regions = op.regions }

variable {σ : Type}

namespace Operation

def alone (op : Operation) : Operation := { op with regions := [] }

/-- The tree with the operation changed and then, in the regions that it is left with, everything
in it. -/
def edit (e : Edit σ) (op : Operation) : StateM σ Operation := do
  let o ← e.change op
  let regions ← o.1.regions.attach.mapM fun r => do
    let blocks ← r.1.blocks.attach.mapM fun b => do
      let operations ← b.1.operations.attach.mapM fun c => edit e c.1
      return { b.1 with operations }
    return Region.mk blocks
  return { o.1 with regions }
termination_by op
decreasing_by
  have hr : r.1 ∈ op.regions := (congrArg (r.1 ∈ ·) o.2).mp r.2
  exact sizeOf_lt hr b.2 c.2

end Operation

namespace Edit

def act (e : Edit σ) (op : Operation) : StateM σ Operation := Subtype.val <$> e.change op

/-- The memory does not matter to what is made of an operation. -/
def Makes (e : Edit σ) (f : Operation → Operation) : Prop := ∀ op s, ((e.act op).run s).1 = f op

/-- The regions do not matter to what is made of an operation. -/
def Blind (e : Edit σ) : Prop := ∀ op, e.act op.alone = Operation.alone <$> e.act op

lemma Blind.mapM_alone {e : Edit σ} (he : e.Blind) (ops : List Operation) :
    (ops.map .alone).mapM e.act = List.map .alone <$> ops.mapM e.act := by
  rw [List.mapM_map, map_mapM]
  exact congrArg ops.mapM (funext he)

end Edit

variable (e : Edit σ)

def Block.edit (b : Block) : StateM σ Block := do
  return { b with operations := ← b.operations.mapM (Operation.edit e) }

def Region.edit (r : Region) : StateM σ Region := do
  return { blocks := ← r.blocks.mapM (Block.edit e) }

namespace Operation

lemma edit_eq (op : Operation) : op.edit e = do
    let o ← e.act op
    return { o with regions := ← op.regions.mapM (Region.edit e) } := by
  have hblock (b : Block) : (b.operations.attach.mapM fun c => c.1.edit e) =
      b.operations.mapM (Operation.edit e) := by
    rw [List.mapM_subtype (g := Operation.edit e) fun _ _ => rfl, List.unattach_attach]
  have hregion (r : Region) : (r.blocks.attach.mapM fun b => b.1.edit e) =
      r.blocks.mapM (Block.edit e) := by
    rw [List.mapM_subtype (g := Block.edit e) fun _ _ => rfl, List.unattach_attach]
  rw [edit, Edit.act, bind_map_left]
  refine bind_congr fun ⟨o, ho⟩ => ?_
  have hregions : (o.regions.attach.mapM fun r => r.1.edit e) =
      op.regions.mapM (Region.edit e) := by
    rw [List.mapM_subtype (g := Region.edit e) fun _ _ => rfl, List.unattach_attach, ho]
  simp only [← hregions, Region.edit, Block.edit, ← hregion, ← hblock]

lemma run_edit (op : Operation) (s : σ) :
    (op.edit e).run s =
      let o := (e.act op).run s
      let regions := (op.regions.mapM (Region.edit e)).run o.2
      ({ o.1 with regions := regions.1 }, regions.2) := by
  rw [edit_eq]
  rfl

end Operation

/-! ### What an edit makes of the operations -/

/-- The operations of a tree, each without its regions. -/
def Operation.members (op : Operation) : List Operation := op.walk.map alone

def Block.members (b : Block) : List Operation := b.operations.flatMap Operation.members

def Region.members (r : Region) : List Operation := r.blocks.flatMap Block.members

namespace Operation

lemma members_eq (op : Operation) :
    op.members = op.alone :: op.regions.flatMap Region.members := by
  rw [members, walk]
  simp only [List.map_cons, List.map_flatMap]
  rfl

/-- An edit makes of a tree what it makes of the operations in a row. -/
theorem members_edit (op : Operation) :
    members <$> op.edit e = List.map alone <$> op.walk.mapM e.act := by
  induction op using nested_induction with
  | nest op ih =>
    -- Block by block and region by region, a loop of the edit is a loop over a part of the walk.
    have hblock : ∀ r ∈ op.regions, ∀ b ∈ r.blocks, Block.members <$> b.edit e =
        List.map alone <$> (b.operations.flatMap walk).mapM e.act := by
      intro r hr b hb
      rw [← flatMap_mapM (ih r hr b hb), Block.edit]
      simp [Block.members]
    have hregion : ∀ r ∈ op.regions, Region.members <$> r.edit e =
        List.map alone <$> (r.blocks.flatMap fun b => b.operations.flatMap walk).mapM e.act := by
      intro r hr
      rw [← flatMap_mapM (hblock r hr), Region.edit]
      simp [Region.members]
    calc members <$> op.edit e
        = (do return (← e.act op).alone ::
            (← List.flatMap Region.members <$> op.regions.mapM (Region.edit e))) := by
          rw [edit_eq]
          simp [members_eq, alone]
      _ = List.map alone <$> op.walk.mapM e.act := by
          rw [flatMap_mapM hregion, walk]
          simp [List.mapM_cons]

lemma run_members_edit (op : Operation) (s : σ) :
    ((op.edit e).run s).1.members = ((op.walk.mapM e.act).run s).1.map alone ∧
      ((op.edit e).run s).2 = ((op.walk.mapM e.act).run s).2 :=
  Prod.ext_iff.mp (congrArg (·.run s) (members_edit e op))

/-- Without a memory that matters, the operations are changed each for itself. -/
theorem edit_eq_mapWalk {e : Edit σ} {f : Operation → Operation} (hf : e.Makes f)
    (op : Operation) (s : σ) : ((op.edit e).run s).1 = op.mapWalk f := by
  induction op using nested_induction generalizing s with
  | nest op ih =>
    have hblock : ∀ r ∈ op.regions, ∀ b ∈ r.blocks, ∀ s,
        ((b.edit e).run s).1 = b.mapWalk f := by
      intro r hr b hb s
      rw [Block.mapWalk, ← fst_mapM (ih r hr b hb) s]
      rfl
    have hregion : ∀ r ∈ op.regions, ∀ s, ((r.edit e).run s).1 = r.mapWalk f := by
      intro r hr s
      rw [Region.mapWalk, ← fst_mapM (hblock r hr) s]
      rfl
    rw [mapWalk_eq, ← fst_mapM hregion ((e.act op).run s).2, ← hf op s, run_edit]

/-! ### What an edit leaves as it is -/

lemma exists_child?_edit (op : Operation) (hop : Hop) (s : σ) :
    ∃ t, ((op.edit e).run s).1.child? hop =
      (op.child? hop).map fun c => ((c.edit e).run t).1 := by
  obtain ⟨t, hregions⟩ :=
    exists_getElem?_mapM op.regions (Region.edit e) hop.region ((e.act op).run s).2
  rw [run_edit]
  simp only [child?, hregions, Option.bind_eq_bind]
  cases op.regions[hop.region]? with
  | none => exact ⟨s, rfl⟩
  | some r =>
    obtain ⟨u, hu⟩ := exists_getElem?_mapM r.blocks (Block.edit e) hop.block t
    have hblocks : ((r.edit e).run t).1.blocks[hop.block]? =
        r.blocks[hop.block]?.map fun b => ((b.edit e).run u).1 := hu
    simp only [Option.map_some, Option.bind_some, hblocks]
    cases r.blocks[hop.block]? with
    | none => exact ⟨s, rfl⟩
    | some b => exact exists_getElem?_mapM b.operations (Operation.edit e) hop.operation u

/-- At the end of a path stands the operation that stood there, edited from some memory. -/
theorem exists_at?_edit (op : Operation) (path : List Hop) (s : σ) :
    ∃ t, ((op.edit e).run s).1.at? path =
      (op.at? path).map fun o => ((o.edit e).run t).1 := by
  induction path generalizing op s with
  | nil => exact ⟨s, rfl⟩
  | cons hop path ih =>
    obtain ⟨t, ht⟩ := exists_child?_edit e op hop s
    rw [at?, at?, ht]
    cases op.child? hop with
    | none => exact ⟨t, rfl⟩
    | some c => exact ih c t

lemma itinerary_edit_iff {op : Operation} {s : σ} {paths : List (List Hop)} :
    ((op.edit e).run s).1.Itinerary paths ↔ op.Itinerary paths := by
  have hleads (path : List Hop) :
      (((op.edit e).run s).1.at? path).isSome = (op.at? path).isSome := by
    obtain ⟨t, ht⟩ := exists_at?_edit e op path s
    rw [ht, Option.isSome_map]
  constructor
  · exact fun h => ⟨fun path => by rw [h.leads, hleads], h.ordered⟩
  · exact fun h => ⟨fun path => by rw [h.leads, hleads], h.ordered⟩

end Operation

/-- The arguments of a block, and how many operations there are in it. -/
def Block.outline (b : Block) : List Value × ℕ := (b.arguments, b.operations.length)

def Region.outline (r : Region) : List (List Value × ℕ) := r.blocks.map Block.outline

namespace Operation

/-- The regions of an operation with their blocks. -/
def outline (op : Operation) : List (List (List Value × ℕ)) := op.regions.map Region.outline

lemma outline_edit (op : Operation) (s : σ) :
    ((op.edit e).run s).1.outline = op.outline := by
  have hblock (b : Block) (s : σ) : ((b.edit e).run s).1.outline = b.outline := by
    have hlength := map_fst_mapM (l := b.operations) (g := Operation.edit e)
      (v := fun _ => ()) (w := fun _ => ()) (fun _ _ _ => rfl) s
    have hlength := congrArg List.length hlength
    rw [List.length_map, List.length_map] at hlength
    exact congrArg (b.arguments, ·) hlength
  have hregion (r : Region) (s : σ) : ((r.edit e).run s).1.outline = r.outline :=
    map_fst_mapM (fun b _ s => hblock b s) s
  rw [run_edit]
  exact map_fst_mapM (fun r _ s => hregion r s) _

/-- **Editing follows the walk.** Apart from regions, a walk over the edited tree meets what the
edit makes of the operations that a walk meets beforehand, one after the other with the memory
handed on. If the edit does not look at regions, they may be taken away first; if the memory does
not matter, a function is applied to each operation. The two walks go along the same paths, which
are those of all operations, each once, in order. There are as many operations as before, and each
has the regions, blocks and arguments that it had. -/
theorem editing_follows_walk (op : Operation) (s : σ) :
    let after := ((op.edit e).run s).1
    let made := (op.walk.mapM e.act).run s
    after.walk.map alone = made.1.map alone ∧ ((op.edit e).run s).2 = made.2 ∧
      (e.Blind → ((op.walk.map alone).mapM e.act).run s = (after.walk.map alone, made.2)) ∧
      (∀ f, e.Makes f → after = op.mapWalk f ∧ after.walk.map alone = (op.walk.map f).map alone ∧
        (e.Blind → after.walk.map alone = (op.walk.map alone).map f)) ∧
      (∃ paths : List (List Hop), paths.Nodup ∧ op.Itinerary paths ∧ after.Itinerary paths ∧
        paths.map op.at? = op.walk.map some ∧ paths.map after.at? = after.walk.map some) ∧
      after.count = op.count ∧
      ∀ path, (after.at? path).map outline = (op.at? path).map outline := by
  intro after made
  obtain ⟨hmembers, hmemory⟩ : after.walk.map alone = made.1.map alone ∧ _ :=
    run_members_edit e op s
  -- The same paths lead somewhere, so the same list of them is in order.
  have hpaths : after.paths = op.paths :=
    ((itinerary_edit_iff e).mp after.itinerary_paths).unique op.itinerary_paths
  have hafter : op.paths.map after.at? = after.walk.map some := hpaths ▸ after.map_at?_paths
  have hblind (h : e.Blind) :
      ((op.walk.map alone).mapM e.act).run s = (after.walk.map alone, made.2) := by
    rw [h.mapM_alone, hmembers]
    rfl
  refine ⟨hmembers, hmemory, hblind, fun f hf => ⟨edit_eq_mapWalk hf op s, ?_, fun h => ?_⟩,
    ?_, ?_, fun path => ?_⟩
  · rw [hmembers, ← fst_mapM (fun o _ => hf o) s]
  · rw [← fst_mapM (fun o _ => hf o) s, hblind h]
  · exact ⟨op.paths, op.itinerary_paths.nodup, op.itinerary_paths, hpaths ▸ after.itinerary_paths,
      op.map_at?_paths, hafter⟩
  · have hlength := congrArg List.length hafter
    have hlength' := congrArg List.length op.map_at?_paths
    simp only [List.length_map] at hlength hlength'
    exact hlength.symm.trans hlength'
  · obtain ⟨t, ht⟩ := exists_at?_edit e op path s
    have hat : after.at? path = (op.at? path).map fun o => ((o.edit e).run t).1 := ht
    rw [hat, Option.map_map]
    exact congrArg (Option.map · (op.at? path)) (funext fun o => outline_edit e o t)

end Operation

/-- Gives each operation its number for a name. -/
def Edit.numbering : Edit ℕ where
  change op := modifyGet fun n => (⟨{ op with name := toString n }, rfl⟩, n + 1)

namespace Operation

/-- Two regions, with two blocks in the first, and an operation in the first operation of these. -/
def spread : Operation where
  name := "root"
  regions := [
    { blocks := [
      { operations := [
        { name := "first",
          regions := [{ blocks := [{ operations := [{ name := "inner" }] }] }] }] },
      { operations := [{ name := "second" }] }] },
    { blocks := [{ operations := [{ name := "third" }] }] }]

theorem editing_follows_walk_numbered :
    spread.walk.map (·.name) = ["root", "first", "inner", "second", "third"] ∧
      Edit.numbering.Blind ∧
      ((spread.edit .numbering).run 0).1.walk.map alone =
        ["0", "1", "2", "3", "4"].map fun name => { name } := by
  have hnames : spread.walk.map (·.name) = ["root", "first", "inner", "second", "third"] := by
    simp [spread, walk]
  have halone : spread.walk.map alone = (spread.walk.map (·.name)).map fun name => { name } := by
    simp [spread, walk, alone]
  have hblind : Edit.numbering.Blind := fun _ => rfl
  obtain ⟨-, -, hafter, -⟩ := editing_follows_walk .numbering spread 0
  have hafter := hafter hblind
  rw [halone, hnames] at hafter
  exact ⟨hnames, hblind, (Prod.ext_iff.mp hafter).1.symm⟩

end Operation

/-! ### Making locations unknown -/

/-- Forgets where an operation comes from, and counts it if that was known. -/
def Edit.stripping : Edit ℕ where
  change op := do
    if op.location.isUnknown then return ⟨op, rfl⟩
    modify (· + 1)
    return ⟨{ op with location := .unknown }, rfl⟩

namespace Operation

lemma run_stripping (op : Operation) (n : ℕ) : (Edit.stripping.act op).run n =
    ({ op with location := .unknown }, n + if op.location.isUnknown then 0 else 1) := by
  obtain ⟨name, operands, results, attributes, regions, location⟩ := op
  cases location <;> rfl

lemma run_mapM_stripping (ops : List Operation) (n : ℕ) :
    ((ops.mapM Edit.stripping.act).run n).2 = n + ops.countP fun o => !o.location.isUnknown := by
  induction ops generalizing n with
  | nil => rfl
  | cons op ops ih =>
    have hrest : (((op :: ops).mapM Edit.stripping.act).run n).2 =
        ((ops.mapM Edit.stripping.act).run ((Edit.stripping.act op).run n).2).2 := by
      rw [List.mapM_cons]
      rfl
    rw [hrest, ih, run_stripping, List.countP_cons]
    cases op.location.isUnknown <;> simp [Nat.add_assoc, Nat.add_comm 1]

/-- To make the locations in a tree unknown and to count them takes one edit. -/
theorem edit_stripping (op : Operation) (n : ℕ) :
    (op.edit .stripping).run n = (op.stripped, n + op.located) := by
  have hmakes : Edit.stripping.Makes fun o => { o with location := .unknown } := fun o n => by
    rw [run_stripping]
  have htree : ((op.edit .stripping).run n).1 = op.stripped := edit_eq_mapWalk hmakes op n
  have hcount : ((op.edit .stripping).run n).2 = n + op.located :=
    (run_members_edit .stripping op n).2.trans (run_mapM_stripping op.walk n)
  exact Prod.ext htree hcount

end Operation

end IR

/-- The pass edits the program once, and notes what is remembered at the end. -/
theorem Pass.run_stripDebugInfo_eq_edit (op : Operation) (s : PassState) :
    stripDebugInfo.run op s =
      let stripped := (op.edit .stripping).run 0
      let s := s.note .debug "stripped debug locations" [("stripped", .count stripped.2)]
      { unit := stripped.1, state := (s.preserve .operationCount).preserve .symbolTable } := by
  rw [Operation.edit_stripping, Nat.zero_add]
  rfl

end OpTree
