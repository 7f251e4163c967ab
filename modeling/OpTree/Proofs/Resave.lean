import OpTree.Proofs.Loaded

/-!
Loading, saving and loading again. A text may leave out what a saved program spells out, so a
program can be loaded at a depth at which it cannot be written: its innermost operation may take
the last level, but the lists that are written for it take one more.
-/

namespace OpTree

namespace IR

open OpTree.Json OpTree.Json.Source OpTree.Json.Value OpTree.Number

/-! ### What was read -/

section

variable [FloatReader]

lemma Attribute.readable_of_readMap {n : ℕ} {s : Source} {m : Data.OrderedMap Attribute}
    (h : readMap n s = .ok m) :
    (Json.Value.object (m.entries.map fun e => (e.1, e.2.toJson))).Readable n := by
  obtain ⟨l, hl, rfl⟩ := map_eq_ok h
  obtain ⟨k, hk, rfl, hvalues⟩ := readPairs_eq_ok hl
  refine readable_object.mpr fun v hv => ?_
  obtain ⟨e, he, rfl⟩ := List.mem_map.mp hv
  obtain ⟨p, hp, hep⟩ := Data.OrderedMap.exists_of_mem_ofList he
  obtain ⟨t, ht⟩ := hvalues p hp
  rw [hep]
  exact Attribute.readable_of_read ht

lemma readable_of_readValues {n : ℕ} {s : Source} {vs : List Value}
    (h : readValues n s = .ok vs) : (Json.Value.list (vs.map Value.toJson)).Readable n :=
  readable_of_readList Value.toJson (fun _ _ _ _ => Value.readable_of_read) h

/-- A field holds its default or what was read for it. -/
def Given {α : Type} (read : Source → Except Fault α) (default x : α) : Prop :=
  x = default ∨ ∃ t, read t = .ok x

lemma readable_of_given {n : ℕ} {vs : List Value} (h : Given (readValues (n + 1)) [] vs) :
    (Json.Value.list (vs.map Value.toJson)).Readable (n + 1) := by
  rcases h with rfl | ⟨t, ht⟩
  · exact readable_list.mpr (by simp)
  · exact readable_of_readValues ht

lemma Attribute.readable_of_given {n : ℕ} {m : Data.OrderedMap Attribute}
    (h : Given (readMap (n + 1)) .empty m) :
    (Json.Value.object (m.entries.map fun e => (e.1, e.2.toJson))).Readable (n + 1) := by
  rcases h with rfl | ⟨t, ht⟩
  · exact readable_object.mpr (by simp [Data.OrderedMap.empty])
  · exact readable_of_readMap ht

lemma Location.readable_of_given {n : ℕ} {l : Location} (h : Given (Location.read n) .unknown l) :
    l.toJson.Readable n := by
  rcases h with rfl | ⟨t, ht⟩
  · simp [toJson]
  · exact readable_of_read ht

structure Block.Loaded (n : ℕ) (b : Block) : Prop where
  arguments : Given (readValues n) [] b.arguments
  operations : Given (readList n fun m _ => Operation.read m) [] b.operations

lemma Block.loaded_of_read {n : ℕ} {s : Source} {b : Block} (h : Block.read n s = .ok b) :
    ∃ m, n = m + 1 ∧ b.Loaded m := by
  obtain ⟨m, hm, hn, hfilled⟩ := filled_record (by simp [optionalField, field]) h
  refine ⟨m, hn, hfilled.keeps (Block.Loaded m) ⟨.inl rfl, .inl rfl⟩ ?_⟩
  intro f hf t q q' hstore hq
  rcases List.mem_pair.mp hf with rfl | rfl
  · obtain ⟨v, hv, rfl⟩ := map_eq_ok hstore
    exact { hq with arguments := .inr ⟨t, hv⟩ }
  · obtain ⟨v, hv, rfl⟩ := map_eq_ok hstore
    exact { hq with operations := .inr ⟨t, hv⟩ }

lemma Region.loaded_of_read {n : ℕ} {s : Source} {r : Region} (h : Region.read n s = .ok r) :
    ∃ m, n = m + 1 ∧ ∃ t, readList m (fun k _ => Block.read k) t = .ok r.blocks := by
  obtain ⟨m, hm, hn, hfilled⟩ := filled_record (by simp [field]) h
  refine ⟨m, hn, hfilled.sets _ (.head _) rfl (by simp)
    (fun r => ∃ t, readList m (fun k _ => Block.read k) t = .ok r.blocks) ?_ ?_⟩
  · intro t q q' hstore
    obtain ⟨v, hv, rfl⟩ := map_eq_ok hstore
    exact ⟨t, hv⟩
  · intro g hg t q q' hstore hq
    obtain rfl := List.mem_singleton.mp hg
    obtain ⟨v, hv, rfl⟩ := map_eq_ok hstore
    exact ⟨t, hv⟩

structure Operation.Loaded (n : ℕ) (op : Operation) : Prop where
  operands : Given (readValues n) [] op.operands
  results : Given (readValues n) [] op.results
  attributes : Given (Attribute.readMap n) .empty op.attributes
  regions : Given (readList n fun m _ => Region.read m) [] op.regions
  location : Given (Location.read n) .unknown op.location

lemma Operation.loaded_of_read {n : ℕ} {s : Source} {op : Operation}
    (h : Operation.read n s = .ok op) : ∃ m, n = m + 1 ∧ op.Loaded m := by
  rw [Operation.read] at h
  obtain ⟨m, hm, hn, hfilled⟩ := filled_record (by simp [optionalField, field]) h
  refine ⟨m, hn, hfilled.keeps (Operation.Loaded m)
    ⟨.inl rfl, .inl rfl, .inl rfl, .inl rfl, .inl rfl⟩ ?_⟩
  intro f hf t q q' hstore hq
  simp only [List.mem_cons, List.not_mem_nil, or_false] at hf
  rcases hf with rfl | rfl | rfl | rfl | rfl | rfl
  · obtain ⟨v, hv, rfl⟩ := map_eq_ok hstore
    exact { hq with }
  · obtain ⟨v, hv, rfl⟩ := map_eq_ok hstore
    exact { hq with operands := .inr ⟨t, hv⟩ }
  · obtain ⟨v, hv, rfl⟩ := map_eq_ok hstore
    exact { hq with results := .inr ⟨t, hv⟩ }
  · obtain ⟨v, hv, rfl⟩ := map_eq_ok hstore
    exact { hq with attributes := .inr ⟨t, hv⟩ }
  · obtain ⟨v, hv, rfl⟩ := map_eq_ok hstore
    exact { hq with regions := .inr ⟨t, hv⟩ }
  · obtain ⟨v, hv, rfl⟩ := map_eq_ok hstore
    exact { hq with location := .inr ⟨t, hv⟩ }

end

namespace Operation

/-! ### Levels -/

/-- The operations that are nested so many levels deep; the operation itself stands at level
zero. -/
def atLevel : ℕ → Operation → List Operation
  | 0, op => [op]
  | k + 1, op => op.children.flatMap (atLevel k)

lemma atLevel_succ_eq_nil {k : ℕ} {op : Operation} :
    op.atLevel (k + 1) = [] ↔ ∀ c ∈ op.children, c.atLevel k = [] := by
  rw [atLevel, List.flatMap_eq_nil_iff]

section

variable [FloatReader]

lemma bare_of_read {s : Source} {op : Operation} (h : Operation.read 1 s = .ok op) :
    op.attributes = .empty ∧ op.regions = [] := by
  obtain ⟨m, hm, hloaded⟩ := loaded_of_read h
  obtain rfl : m = 0 := by omega
  constructor
  · rcases hloaded.attributes with h | ⟨t, ht⟩
    · exact h
    · obtain ⟨l, hl, -⟩ := map_eq_ok ht
      obtain ⟨k, hk, -⟩ := readPairs_eq_ok hl
      omega
  · rcases hloaded.regions with h | ⟨t, ht⟩
    · exact h
    · obtain ⟨k, hk, -⟩ := readList_eq_ok ht
      omega

lemma block_loaded_of_read {n : ℕ} {s : Source} {op : Operation}
    (h : Operation.read (n + 6) s = .ok op) {r : Region} (hr : r ∈ op.regions) {b : Block}
    (hb : b ∈ r.blocks) : b.Loaded (n + 1) := by
  obtain ⟨m, hm, hloaded⟩ := loaded_of_read h
  rcases hloaded.regions with h | ⟨t, ht⟩
  · simp [h] at hr
  · obtain ⟨k, -, hk, hregions⟩ := readList_eq_ok ht
    obtain ⟨u, hu⟩ := hregions r hr
    obtain ⟨i, hi, v, hv⟩ := Region.loaded_of_read hu
    obtain ⟨j, -, hj, hblocks⟩ := readList_eq_ok hv
    obtain ⟨w, hw⟩ := hblocks b hb
    obtain ⟨l, hl, hloaded⟩ := Block.loaded_of_read hw
    obtain rfl : l = n + 1 := by omega
    exact hloaded

/-- What stands directly in an operation that was read has been read six levels further down. -/
lemma child_of_read {n : ℕ} {s : Source} {op : Operation}
    (h : Operation.read (n + 6) s = .ok op) {c : Operation} (hc : c ∈ op.children) :
    ∃ t, Operation.read n t = .ok c := by
  obtain ⟨r, hr, b, hb, hc⟩ := mem_children.mp hc
  rcases (block_loaded_of_read h hr hb).operations with h | ⟨t, ht⟩
  · simp [h] at hc
  · obtain ⟨k, -, hk, hitems⟩ := readList_eq_ok ht
    obtain rfl : k = n := by omega
    exact hitems c hc

lemma readable_iff_children {n : ℕ} {s : Source} {op : Operation}
    (h : Operation.read (n + 7) s = .ok op) :
    op.toJson.Readable (n + 7) ↔ ∀ c ∈ op.children, c.toJson.Readable (n + 1) := by
  obtain ⟨m, hm, hloaded⟩ := loaded_of_read h
  obtain rfl : m = n + 6 := by omega
  have hoperands := readable_of_given hloaded.operands
  have hresults := readable_of_given hloaded.results
  have hattributes := Attribute.readable_of_given hloaded.attributes
  have hlocation := Location.readable_of_given hloaded.location
  have harguments : ∀ r ∈ op.regions, ∀ b ∈ r.blocks, ∀ v ∈ b.arguments,
      v.toJson.Readable (n + 1) := fun r hr b hb => by
    have hvalues := readable_of_given (block_loaded_of_read h hr hb).arguments
    rwa [readable_list, List.forall_mem_map] at hvalues
  have hmembers : op.toJson.Readable (n + 7) ↔ ∀ r ∈ op.regions, ∀ b ∈ r.blocks,
      (∀ v ∈ b.arguments, v.toJson.Readable (n + 1)) ∧
        ∀ c ∈ b.operations, c.toJson.Readable (n + 1) := by
    rw [toJson, readable_object]
    simp [hoperands, hresults, hattributes, hlocation, readable_list, readable_object]
  rw [hmembers]
  constructor
  · intro h c hc
    obtain ⟨r, hr, b, hb, hc⟩ := mem_children.mp hc
    exact (h r hr b hb).2 c hc
  · intro h r hr b hb
    exact ⟨harguments r hr b hb, fun c hc => h c (mem_children.mpr ⟨r, hr, b, hb, hc⟩)⟩

lemma isFinite_of_read {j : ℕ} {s : Source} {op : Operation}
    (h : Operation.read (6 * j + 1) s = .ok op) : ∀ x ∈ op.floats, x.isFinite = true := by
  induction j generalizing s op with
  | zero =>
    obtain ⟨hattributes, hregions⟩ := bare_of_read h
    simp [floats_eq, hattributes, children, hregions, Data.OrderedMap.empty, Data.OrderedMap.values]
  | succ j ih =>
    obtain ⟨m, hm, hloaded⟩ := loaded_of_read h
    obtain rfl : m = 6 * j + 6 := by omega
    have hattributes := Attribute.readable_of_given hloaded.attributes
    intro x hx
    rw [floats_eq, List.mem_append, List.mem_flatMap, List.mem_flatMap] at hx
    rcases hx with ⟨a, ha, hx⟩ | ⟨c, hc, hx⟩
    · obtain ⟨e, he, rfl⟩ := List.mem_map.mp ha
      have hvalue := readable_object.mp hattributes _ (List.mem_map_of_mem he)
      exact hvalue.2 x (by rwa [Attribute.floats_toJson])
    · obtain ⟨t, ht⟩ := child_of_read (n := 6 * j + 1) h hc
      exact ih ht x hx

/-- An operation that was read can be read again if, and only if, none of its operations has been
read with the last level. -/
lemma readable_iff_of_read {j : ℕ} {s : Source} {op : Operation}
    (h : Operation.read (6 * j + 1) s = .ok op) :
    op.toJson.Readable (6 * j + 1) ↔ op.atLevel j = [] := by
  induction j generalizing s op with
  | zero =>
    refine ⟨fun hread => ?_, fun hnil => by simp [atLevel] at hnil⟩
    rw [toJson, readable_object] at hread
    have hlist := (hread _ (.tail _ (.head _))).1
    exact absurd hlist (Nat.not_le.mpr (depth_list_pos _))
  | succ j ih =>
    have hchildren := readable_iff_children (n := 6 * j) h
    rw [atLevel_succ_eq_nil, show 6 * (j + 1) + 1 = 6 * j + 7 by omega, hchildren]
    refine forall₂_congr fun c hc => ?_
    obtain ⟨t, ht⟩ := child_of_read (n := 6 * j + 1) h hc
    exact ih ht

lemma exists_read_of_load {text : String} {op : Operation} (h : load text = .ok op) :
    ∃ s, Operation.read nestingBudget s = .ok op := by
  obtain ⟨r, hr, h⟩ := bind_eq_ok h
  split at h
  · cases h
    exact ⟨_, hr⟩
  · cases h

/-- **What was loaded can be saved and loaded again**, if the numbers in it are read back one by
one, unless an operation stands so deep in it that the lists written for that operation nest too
deep. -/
theorem load_save_of_load {text : String} {op : Operation} (h : load text = .ok op)
    (hback : ∀ x ∈ op.floats, ReadsBack x) :
    load op.save = if (op.atLevel 21).isEmpty then .ok op else .error .nestingLimit := by
  obtain ⟨s, hs⟩ := exists_read_of_load h
  have hlevel : (op.atLevel 21).isEmpty = true ↔ op.toJson.Readable nestingBudget :=
    List.isEmpty_iff.trans (readable_iff_of_read (j := 21) hs).symm
  have hfinite := isFinite_of_read (j := 21) hs
  have hreads := op.reads_save hback
  generalize load op.save = r at hreads
  cases hreads with
  | ok h => rw [if_pos (hlevel.mpr (h _ (List.mem_singleton_self _)))]
  | tooDeep v hv deep =>
    obtain rfl := List.mem_singleton.mp hv
    rw [if_neg fun h => absurd (hlevel.mp h).1 (Nat.not_le.mpr deep)]
  | notFinite v hv y hy hinf =>
    obtain rfl := List.mem_singleton.mp hv
    rw [floats_toJson] at hy
    rw [hfinite y hy] at hinf
    cases hinf

end

/-! ### Chains -/

/-- The shortest JSON form of operations that are nested in one another so many levels deep, with
the value `v` for the innermost one. -/
def chainJson (v : Json.Value) : ℕ → Json.Value
  | 0 => v
  | k + 1 =>
    .object [("name", .string "a"), ("regions", .list [.object [("blocks", .list [.object
      [("operations", .list [chainJson v k])]])]])]

/-- Operations that are nested in one another so many levels deep, around the operation `op`. -/
def chain (op : Operation) : ℕ → Operation
  | 0 => op
  | k + 1 => { name := "a", regions := [{ blocks := [{ operations := [chain op k] }] }] }

lemma children_chain (op : Operation) (k : ℕ) : (chain op (k + 1)).children = [chain op k] := by
  simp [children, chain]

lemma atLevel_chain (op : Operation) (j k : ℕ) : (chain op k).atLevel (j + k) = op.atLevel j := by
  induction k with
  | zero => rfl
  | succ k ih => rw [← Nat.add_assoc, atLevel, children_chain, List.flatMap_singleton, ih]

lemma floats_chain (op : Operation) (k : ℕ) : (chain op k).floats = op.floats := by
  induction k with
  | zero => rfl
  | succ k ih =>
    rw [floats_eq, children_chain, List.flatMap_singleton, ih]
    simp [chain, Data.OrderedMap.values, Data.OrderedMap.empty]

section

variable [FloatReader]

lemma read_chainJson {n : ℕ} {v : Json.Value} {op : Operation}
    (h : Operation.read n v.source = .ok op) (k : ℕ) :
    Operation.read (n + 6 * k) (chainJson v k).source = .ok (chain op k) := by
  induction k with
  | zero => exact h
  | succ k ih =>
    rw [Nat.mul_succ, ← Nat.add_assoc]
    generalize n + 6 * k = m at ih ⊢
    rw [Operation.read, chainJson, chain]
    simp [Json.Value.source, readRecord, descend, readMembers, checkKey, field, optionalField,
      Key.read, readString, readText, ObjectEnd.lastKey?, ObjectEnd.fault?, Fault.check, bind,
      Except.bind, pure, Except.pure, Functor.map, Except.map, readList, ListEnd.fault?,
      Region.readWith, Block.readWith, ih]

lemma load_chainJson {n k : ℕ} {v : Json.Value} {op : Operation}
    (h : Operation.read n v.source = .ok op) (hn : n + 6 * k = nestingBudget) :
    load (chainJson v k).pretty = .ok (chain op k) := by
  rw [load, decode_pretty, ← hn]
  exact read_chainJson h k

end

/-- An operation with a number. -/
def gauge : Operation where
  name := "b"
  attributes.entries := [("x", .float ⟨0x3fb999999999999a⟩ .f64)]

theorem load_save_chain_twenty :
    load (chainJson gauge.toJson 20).pretty = .ok (chain gauge 20) ∧
      (∀ x ∈ (chain gauge 20).floats, ReadsBack x) ∧
      load (chain gauge 20).save = .ok (chain gauge 20) := by
  have hfloats : gauge.floats = [⟨0x3fb999999999999a⟩] := by
    simp [gauge, floats_eq, children, Attribute.floats, Data.OrderedMap.values]
  have hshort : ∀ x ∈ gauge.floats, (numberLayout.numeral x).Short := by
    rw [hfloats]
    decide +kernel
  have hback : ∀ x ∈ gauge.floats, ReadsBack x := fun x hx => readsBack_of_short (hshort x hx)
  have hreadable : gauge.toJson.Readable 7 := by
    refine ⟨?_, ?_⟩
    · simp [gauge, toJson, Attribute.toJson, Ty.toJson, Location.toJson, Json.Value.tagged,
        Json.Value.depth]
    · rw [floats_toJson, hfloats]
      decide
  have hload : load (chainJson gauge.toJson 20).pretty = .ok (chain gauge 20) :=
    load_chainJson ((gauge.reads hback 7).eq_ok_iff.mpr ⟨rfl, hreadable⟩) rfl
  have hchain : ∀ x ∈ (chain gauge 20).floats, ReadsBack x := by rwa [floats_chain]
  have hlevel : ((chain gauge 20).atLevel 21).isEmpty = true := by
    rw [atLevel_chain gauge 1 20]
    simp [atLevel, children, gauge]
  exact ⟨hload, hchain, (load_save_of_load hload hchain).trans (if_pos hlevel)⟩

def stub : Operation where
  name := "a"

def stubJson : Json.Value := .object [("name", .string "a")]

/-- One level deeper the text still loads, but what is saved does not, whatever reads the numbers:
there are none. -/
theorem load_save_chain_twentyOne :
    (chain stub 21).floats = [] ∧ ∀ [FloatReader],
      load (chainJson stubJson 21).pretty = .ok (chain stub 21) ∧
        load (chain stub 21).save ≠ .ok (chain stub 21) := by
  have hfloats : (chain stub 21).floats = [] := by
    rw [floats_chain]
    simp [stub, floats_eq, children, Data.OrderedMap.values, Data.OrderedMap.empty]
  refine ⟨hfloats, ?_⟩
  intro _
  have hread : Operation.read 1 stubJson.source = .ok stub := by
    rw [Operation.read, stubJson, stub]
    simp [Json.Value.source, readRecord, descend, readMembers, checkKey, field, optionalField,
      Key.read, readString, readText, ObjectEnd.lastKey?, ObjectEnd.fault?, Fault.check, bind,
      Except.bind, pure, Except.pure, Functor.map, Except.map]
  refine ⟨load_chainJson hread rfl, fun h => ?_⟩
  have hreadable := (((chain stub 21).reads_save (by simp [hfloats])).eq_ok_iff.mp h).2
  have hlevel := (readable_iff_of_read (j := 21) (read_chainJson hread 21)).mp hreadable
  have hbottom := atLevel_chain stub 0 21
  rw [Nat.zero_add, hlevel] at hbottom
  simp [atLevel] at hbottom

end Operation

end IR

end OpTree
