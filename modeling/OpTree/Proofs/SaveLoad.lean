import OpTree.IR.Save
import OpTree.IR.Load
import OpTree.Proofs.OrderedMaps
import OpTree.Proofs.Parts
import OpTree.Proofs.QuickReading
import OpTree.Proofs.Tree

/-!
Saving a program and loading it again. The JSON form of each part is read back as the part, as
long as it nests no deeper than the reader may go and holds no number that JSON cannot write. Of
the other numbers it is asked that each is read back by itself.
-/

namespace OpTree

namespace IR

open OpTree.Json OpTree.Json.Source OpTree.Number

/-! ### Numbers in programs -/

/-- The floating point numbers in an attribute, also inside arrays. -/
def Attribute.floats : Attribute → List Binary64
  | float v _ => [v]
  | array items => items.flatMap floats
  | _ => []

namespace Operation

/-- The floating point numbers in the attributes of an operation and of everything in it. -/
def floats (op : Operation) : List Binary64 :=
  op.walk.flatMap fun o => o.attributes.values.flatMap Attribute.floats

lemma floats_eq (op : Operation) :
    op.floats = op.attributes.values.flatMap Attribute.floats ++ op.children.flatMap floats := by
  rw [floats, walk_eq, List.flatMap_cons, List.flatMap_assoc]
  rfl

lemma mem_floats_of_attribute {op : Operation} {a : Attribute} {x : Binary64}
    (ha : a ∈ op.attributes.values) (hx : x ∈ a.floats) : x ∈ op.floats := by
  rw [floats_eq]
  exact List.mem_append_left _ (List.mem_flatMap.mpr ⟨a, ha, hx⟩)

lemma mem_floats_of_child {op c : Operation} {x : Binary64} (hc : c ∈ op.children)
    (hx : x ∈ c.floats) : x ∈ op.floats := by
  rw [floats_eq]
  exact List.mem_append_right _ (List.mem_flatMap.mpr ⟨c, hc, hx⟩)

end Operation

/-! ### Reading what was saved -/

section

variable [FloatReader] {n : ℕ}

lemma reads_uint32 (w : UInt32) : Reads [uint32Json w] n w (readUInt32 (uint32Json w).source) := by
  have hlt := w.toNat_lt
  have h : Reads [uint32Json w] n (w.toNat : ℤ)
      (readInt "u32" 0 0xffffffff (uint32Json w).source) :=
    reads_int "u32" (by omega) (by omega) (by omega) (by omega)
  have hback : UInt32.ofNat (Int.toNat w.toNat) = w := by simp
  rw [readUInt32]
  simpa only [hback] using h.map fun k => UInt32.ofNat k.toNat

lemma reads_int64 (k : Int64) : Reads [int64Json k] n k (readInt64 (int64Json k).source) := by
  have hlow := k.le_toInt
  have hhigh := k.toInt_lt
  have h : Reads [int64Json k] n k.toInt
      (readInt "i64" (-0x8000000000000000) 0x7fffffffffffffff (int64Json k).source) :=
    reads_int "i64" (by omega) (by omega) (by omega) (by omega)
  rw [readInt64]
  simpa only [Int64.ofInt_toInt] using h.map Int64.ofInt

theorem Ty.reads (t : Ty) (n : ℕ) : Reads [t.toJson] n t (Ty.read n t.toJson.source) := by
  induction t using Ty.nested_induction generalizing n with
  | integer w =>
    rw [toJson, Ty.read]
    exact reads_tagged rfl fun m _ => (reads_uint32 w).map integer
  | index | f32 | f64 | none =>
    rw [toJson, Ty.read]
    exact reads_alone rfl rfl
  | tensor shape element ih =>
    rw [toJson, Ty.read]
    refine reads_tagged rfl fun m _ =>
      Reads.bind_pure (x := (shape, element)) (fun r => tensor r.1 r.2) ?_
    refine reads_tuple fun k hk => .cons (.map (fun v => (v, _)) (reads_list shape ?_))
      (.cons ((ih k).map (fun v => (_, v))) (.nil _))
    exact fun i _ d _ => reads_int64 d
  | function inputs results ihInputs ihResults =>
    rw [toJson, Ty.read]
    refine reads_tagged rfl fun m _ =>
      Reads.bind_pure (x := (inputs, results)) (fun r => function r.1 r.2) ?_
    refine reads_record (fun k hk => .cons (.map (fun v => (v, _)) (reads_list inputs ?_))
      (.cons (.map (fun v => (_, v)) (reads_list results ?_)) (.nil _))) rfl (by simp [field])
    · exact fun i _ t ht => ihInputs t ht i
    · exact fun i _ t ht => ihResults t ht i

theorem Value.reads (v : Value) (n : ℕ) :
    Reads [v.toJson] n v (Value.read n v.toJson.source) := by
  rw [toJson, Value.read]
  refine reads_record (fun m hm => .cons ((reads_uint32 v.id.index).map _)
    (.cons ((v.ty.reads m).map _) (.nil _))) rfl (by simp [field])

theorem Location.reads (l : Location) (n : ℕ) :
    Reads [l.toJson] n l (Location.read n l.toJson.source) := by
  induction l using Location.nested_induction generalizing n with
  | unknown =>
    rw [toJson, Location.read]
    exact reads_alone rfl rfl
  | fileLineCol file line column =>
    rw [toJson, Location.read]
    refine reads_tagged rfl fun m _ => Reads.bind_pure
      (x := (file, line, column))
      (fun r => fileLineCol r.1 r.2.1 r.2.2) ?_
    exact reads_record (fun k hk => .cons ((reads_string file).map _)
      (.cons ((reads_uint32 line).map _) (.cons ((reads_uint32 column).map _) (.nil _)))) rfl
      (by simp [field])
  | name s =>
    rw [toJson, Location.read]
    exact reads_tagged rfl fun m _ => (reads_string s).map name
  | fused parts ih =>
    rw [toJson, Location.read]
    exact reads_tagged rfl fun m _ =>
      .map fused (reads_list parts fun k _ l hl => ih l hl k)

theorem Attribute.reads (a : Attribute) (hback : ∀ x ∈ a.floats, ReadsBack x) (n : ℕ) :
    Reads [a.toJson] n a (Attribute.read n a.toJson.source) := by
  induction a using Attribute.nested_induction generalizing n with
  | unit =>
    rw [toJson, Attribute.read]
    exact reads_alone rfl rfl
  | bool b =>
    rw [toJson, Attribute.read]
    exact reads_tagged rfl fun m _ => (reads_bool b).map bool
  | integer v t =>
    rw [toJson, Attribute.read]
    refine reads_tagged rfl fun m _ =>
      Reads.bind_pure (x := (v, t)) (fun r => integer r.1 r.2) ?_
    exact reads_tuple fun k hk => .cons ((reads_int64 v).map _) (.cons ((t.reads k).map _) (.nil _))
  | float v t =>
    rw [toJson, Attribute.read]
    refine reads_tagged rfl fun m _ =>
      Reads.bind_pure (x := (v, t)) (fun r => float r.1 r.2) ?_
    have hv := hback v (by rw [floats]; exact List.mem_singleton_self v)
    exact reads_tuple fun k hk =>
      .cons ((reads_float hv).map _) (.cons ((t.reads k).map _) (.nil _))
  | string s =>
    rw [toJson, Attribute.read]
    exact reads_tagged rfl fun m _ => (reads_string s).map string
  | type t =>
    rw [toJson, Attribute.read]
    exact reads_tagged rfl fun m _ => (t.reads m).map type
  | array items ih =>
    have hitems : ∀ a ∈ items, ∀ x ∈ a.floats, ReadsBack x := fun a ha x hx =>
      hback x (by rw [floats]; exact List.mem_flatMap.mpr ⟨a, ha, hx⟩)
    rw [toJson, Attribute.read]
    exact reads_tagged rfl fun m _ =>
      .map array (reads_list items fun k _ a ha => ih a ha (hitems a ha) k)
  | dense t values =>
    rw [toJson, Attribute.read]
    refine reads_tagged rfl fun m _ =>
      Reads.bind_pure (x := (t, values)) (fun r => dense r.1 r.2) ?_
    refine reads_record (fun k hk => .cons ((t.reads k).map _)
      (.cons (.map _ (reads_list values fun i _ d _ => reads_int64 d)) (.nil _))) rfl
      (by simp [field])
  | symbol name =>
    rw [toJson, Attribute.read]
    exact reads_tagged rfl fun m _ => (reads_string name).map symbol

lemma reads_values (vs : List Value) (n : ℕ) :
    Reads [.list (vs.map Value.toJson)] n vs
      (readValues n (Json.Value.list (vs.map Value.toJson)).source) :=
  reads_list vs fun m _ v _ => v.reads m

lemma Attribute.reads_map (m : Data.OrderedMap Attribute)
    (hback : ∀ a ∈ m.values, ∀ x ∈ a.floats, ReadsBack x) (n : ℕ) :
    Reads [.object (m.entries.map fun e => (e.1, e.2.toJson))] n m
      (readMap n (Json.Value.object (m.entries.map fun e => (e.1, e.2.toJson))).source) := by
  have hentry : ∀ e ∈ m.entries, ∀ k,
      Reads [e.2.toJson] k e.2 (Attribute.read k e.2.toJson.source) :=
    fun e he => e.2.reads (hback e.2 (List.mem_map_of_mem he))
  have h := (reads_pairs m.entries fun k (_ : k < n) e he => hentry e he k).map
    Data.OrderedMap.ofList
  rwa [Data.OrderedMap.ofList_entries] at h

namespace Operation

theorem reads (op : Operation) (hback : ∀ x ∈ op.floats, ReadsBack x) (n : ℕ) :
    Reads [op.toJson] n op (Operation.read n op.toJson.source) := by
  induction op using nested_induction generalizing n with
  | nest op ih =>
    have hblock : ∀ r ∈ op.regions, ∀ b ∈ r.blocks, ∀ k, Reads [b.toJson] k b
        (Block.readWith k (fun j _ => Operation.read j) b.toJson.source) := by
      intro r hr b hb k
      refine reads_record (fun j _ => .cons ((reads_values b.arguments j).map _)
        (.cons (.map _ (reads_list b.operations ?_)) (.done (by cases b; rfl)))) rfl
        (by simp [optionalField, field])
      intro i _ c hc
      have hchild : c ∈ op.children := mem_children.mpr ⟨r, hr, b, hb, hc⟩
      exact ih r hr b hb c hc (fun x hx => hback x (mem_floats_of_child hchild hx)) i
    have hregion : ∀ r ∈ op.regions, ∀ k,
        Reads [.object [("blocks", .list (r.blocks.map Block.toJson))]] k r
          (Region.readWith k (fun j _ => Operation.read j)
            (Json.Value.object [("blocks", .list (r.blocks.map Block.toJson))]).source) := by
      intro r hr k
      refine reads_record (fun j _ => .cons (.map _ (reads_list r.blocks ?_))
        (.done (by cases r; rfl))) rfl (by simp [field])
      exact fun i _ b hb => hblock r hr b hb i
    have hattributes : ∀ a ∈ op.attributes.values, ∀ x ∈ a.floats, ReadsBack x :=
      fun a ha x hx => hback x (mem_floats_of_attribute ha hx)
    rw [toJson, Operation.read]
    refine reads_record (fun k _ => .cons ((reads_string op.name).map _)
      (.cons ((reads_values op.operands k).map _) (.cons ((reads_values op.results k).map _)
      (.cons ((Attribute.reads_map op.attributes hattributes k).map _)
      (.cons (.map _ (reads_list op.regions ?_)) (.cons ((op.location.reads k).map _)
      (.done (by cases op; rfl)))))))) rfl (by simp [optionalField, field])
    exact fun i _ r hr => hregion r hr i

end Operation

end

/-! ### Numbers in what is saved -/

lemma Ty.floats_toJson (t : Ty) : t.toJson.floats = [] := by
  induction t using Ty.nested_induction with
  | integer | index | f32 | f64 | none =>
    simp [toJson, Json.Value.tagged, uint32Json, Json.Value.floats]
  | tensor shape element ih =>
    simp [toJson, Json.Value.tagged, int64Json, Json.Value.floats, List.flatMap_map, ih]
  | function inputs results ihInputs ihResults =>
    simp only [toJson, Json.Value.tagged, Json.Value.floats, List.flatMap_map,
      List.flatMap_cons, List.flatMap_nil, List.append_nil, List.append_eq_nil_iff,
      List.flatMap_eq_nil_iff]
    exact ⟨ihInputs, ihResults⟩

lemma Value.floats_toJson (v : Value) : v.toJson.floats = [] := by
  simp [toJson, uint32Json, Json.Value.floats, Ty.floats_toJson]

lemma Location.floats_toJson (l : Location) : l.toJson.floats = [] := by
  induction l using Location.nested_induction with
  | unknown | fileLineCol | name =>
    simp [toJson, Json.Value.tagged, uint32Json, Json.Value.floats]
  | fused parts ih =>
    simpa [toJson, Json.Value.tagged, Json.Value.floats] using ih

lemma Attribute.floats_toJson (a : Attribute) : a.toJson.floats = a.floats := by
  induction a using Attribute.nested_induction with
  | unit | bool | string | symbol | integer | float | type =>
    simp [toJson, floats, Json.Value.tagged, int64Json, Json.Value.floats, Ty.floats_toJson]
  | array items ih =>
    simp only [toJson, floats, Json.Value.tagged, Json.Value.floats, List.flatMap_map,
      List.flatMap_singleton]
    exact List.flatMap_congr ih
  | dense t values =>
    simp [toJson, floats, Json.Value.tagged, int64Json, Json.Value.floats, List.flatMap_map,
      Ty.floats_toJson]

namespace Operation

lemma floats_toJson (op : Operation) : op.toJson.floats = op.floats := by
  induction op using nested_induction with
  | nest op ih =>
    have hattributes : (op.attributes.entries.flatMap fun e => e.2.toJson.floats) =
        op.attributes.values.flatMap Attribute.floats := by
      rw [Data.OrderedMap.values, List.flatMap_map]
      exact List.flatMap_congr fun e _ => e.2.floats_toJson
    have hregions : (op.regions.flatMap fun r => r.blocks.flatMap fun b =>
        b.operations.flatMap fun c => c.toJson.floats) = op.children.flatMap floats := by
      simp only [children, List.flatMap_assoc]
      exact List.flatMap_congr fun r hr => List.flatMap_congr fun b hb =>
        List.flatMap_congr fun c hc => ih r hr b hb c hc
    have hvalues (vs : List Value) : (vs.flatMap fun v => v.toJson.floats) = [] :=
      List.flatMap_eq_nil_iff.mpr fun v _ => v.floats_toJson
    rw [toJson, floats_eq]
    simp only [Json.Value.floats, List.flatMap_cons, List.flatMap_nil, List.flatMap_map,
      Location.floats_toJson, hvalues, hattributes, hregions, List.nil_append, List.append_nil]

/-! ### Loading what was saved -/

lemma reads_save [FloatReader] (op : Operation) (hback : ∀ x ∈ op.floats, ReadsBack x) :
    Reads [op.toJson] nestingBudget op (load op.save) := by
  rw [load, save, decode_pretty]
  exact op.reads hback nestingBudget

/-- **What is saved loads as the program that it was**, attributes in their order and floating
point numbers to the bit, if these numbers are read back one by one. It does so if, and only if,
they are finite and the text nests no deeper than loading goes. -/
theorem load_save_iff [FloatReader] (op r : Operation) (hback : ∀ x ∈ op.floats, ReadsBack x) :
    load op.save = .ok r ↔
      r = op ∧ (∀ x ∈ op.floats, x.isFinite = true) ∧ op.toJson.depth ≤ nestingBudget := by
  rw [(op.reads_save hback).eq_ok_iff, Json.Value.Readable, floats_toJson,
    and_comm (a := op.toJson.depth ≤ nestingBudget)]

/-- A program with numbers in it, also in a list and in an operation further down. -/
def measured : Operation where
  name := "a"
  attributes.entries :=
    [("x", .float ⟨0x3fb999999999999a⟩ .f64),
      ("y", .array [.float ⟨0x3e7ad7f29abcaf48⟩ .f32, .bool true])]
  regions :=
    [{ blocks :=
        [{ operations :=
            [{ name := "b", attributes.entries := [("z", .float ⟨0xbfd5555555555555⟩ .f64)] }] }] }]

theorem load_save_measured :
    (∀ x ∈ measured.floats, ReadsBack x) ∧ load measured.save = .ok measured := by
  have hfloats : measured.floats =
      [⟨0x3fb999999999999a⟩, ⟨0x3e7ad7f29abcaf48⟩, ⟨0xbfd5555555555555⟩] := by
    simp [measured, floats_eq, children, Attribute.floats, Data.OrderedMap.values]
  have hdepth : measured.toJson.depth ≤ nestingBudget := by
    simp [measured, toJson, Attribute.toJson, Ty.toJson, Location.toJson, Json.Value.tagged,
      Json.Value.depth, nestingBudget]
  have hshort : ∀ x ∈ measured.floats, (numberLayout.numeral x).Short := by
    rw [hfloats]
    decide +kernel
  have hfinite : ∀ x ∈ measured.floats, x.isFinite = true := by
    rw [hfloats]
    decide
  have hback : ∀ x ∈ measured.floats, ReadsBack x := fun x hx => readsBack_of_short (hshort x hx)
  exact ⟨hback, (load_save_iff measured measured hback).mpr ⟨rfl, hfinite, hdepth⟩⟩

end Operation

end IR

end OpTree
