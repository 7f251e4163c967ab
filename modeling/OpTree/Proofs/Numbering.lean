import OpTree.Proofs.FirstOccurrence
import OpTree.Proofs.ProgramText
import OpTree.Proofs.ValueNames

/-!
The names of values are unambiguous. One walk over a program, with a counter for results, another
for block arguments and a table in which the first entry of an id counts, gives each id the number
of its first definition. So different ids have different names, whatever a program does with ids,
and a value has the name of an unknown one exactly if its id is defined nowhere.
-/

namespace OpTree

open OpTree.IR IR.Operation

/-! ### What a program defines -/

namespace IR.Operation

/-- All results in a tree, in the order of printing. -/
def allResults (op : Operation) : List Value := op.walk.flatMap Operation.results

/-- All block arguments in a tree, in the order of printing: those of a block stand before those
in its operations. -/
def allArguments (op : Operation) : List Value :=
  op.regions.flatMap fun r => r.blocks.flatMap fun b =>
    b.arguments ++ b.operations.flatMap allArguments
termination_by op
decreasing_by exact sizeOf_lt ‹_› ‹_› ‹_›

/-- Somewhere in the tree the id is that of a result or of a block argument. -/
def Defines (root : Operation) (i : ValueId) : Prop :=
  ∃ op ∈ root.walk, (∃ v ∈ op.results, v.id = i) ∨
    ∃ r ∈ op.regions, ∃ b ∈ r.blocks, ∃ v ∈ b.arguments, v.id = i

end IR.Operation

namespace Print

namespace Definition

def isResult : Definition → Bool
  | result _ => true
  | argument _ => false

def isArgument : Definition → Bool
  | result _ => false
  | argument _ => true

/-- The name of a definition with so many results and so many block arguments before it. -/
def nameAt (results arguments : ℕ) : Definition → String
  | result _ => "%" ++ toString results
  | argument _ => "%arg" ++ toString arguments

end Definition

open Definition

lemma filter_isResult (op : Operation) :
    (definitions op).filter isResult = op.allResults.map fun v => .result v.id := by
  induction op using nested_induction with
  | nest op ih =>
    rw [definitions, allResults, walk]
    simp only [List.filter_append, List.filter_flatMap, List.filter_map, Function.comp_def,
      isResult, List.filter_true, List.filter_false, List.map_nil, List.nil_append,
      List.flatMap_cons, List.flatMap_assoc, List.map_append, List.map_flatMap]
    congr 1
    refine List.flatMap_congr fun r hr => List.flatMap_congr fun b hb =>
      List.flatMap_congr fun o ho => ?_
    rw [ih r hr b hb o ho, allResults, List.map_flatMap]

lemma filter_isArgument (op : Operation) :
    (definitions op).filter isArgument = op.allArguments.map fun v => .argument v.id := by
  induction op using nested_induction with
  | nest op ih =>
    rw [definitions, allArguments]
    simp only [List.filter_append, List.filter_flatMap, List.filter_map, Function.comp_def,
      isArgument, List.filter_true, List.filter_false, List.map_nil, List.nil_append,
      List.map_append, List.map_flatMap]
    refine List.flatMap_congr fun r hr => List.flatMap_congr fun b hb => congrArg _ ?_
    exact List.flatMap_congr fun o ho => ih r hr b hb o ho

lemma mem_definitions_iff {root : Operation} {i : ValueId} :
    i ∈ (definitions root).map Definition.id ↔ root.Defines i := by
  constructor
  · induction root using nested_induction with
    | nest root ih =>
      intro hi
      rw [definitions, List.map_append, List.mem_append] at hi
      rcases hi with hi | hi
      · obtain ⟨d, hd, rfl⟩ := List.mem_map.mp hi
        obtain ⟨v, hv, rfl⟩ := List.mem_map.mp hd
        exact ⟨root, root.self_mem_walk, .inl ⟨v, hv, rfl⟩⟩
      · obtain ⟨d, hd, rfl⟩ := List.mem_map.mp hi
        obtain ⟨r, hr, hd⟩ := List.mem_flatMap.mp hd
        obtain ⟨b, hb, hd⟩ := List.mem_flatMap.mp hd
        rcases List.mem_append.mp hd with hd | hd
        · obtain ⟨v, hv, rfl⟩ := List.mem_map.mp hd
          exact ⟨root, root.self_mem_walk, .inr ⟨r, hr, b, hb, v, hv, rfl⟩⟩
        · obtain ⟨c, hc, hd⟩ := List.mem_flatMap.mp hd
          obtain ⟨op, hop, hdefines⟩ := ih r hr b hb c hc (List.mem_map_of_mem hd)
          exact ⟨op, walk_subset hr hb hc hop, hdefines⟩
  · rintro ⟨op, hop, ⟨v, hv, rfl⟩ | ⟨r, hr, b, hb, v, hv, rfl⟩⟩
    · exact List.mem_map_of_mem (definitions_subset_of_walk hop (result_mem_definitions hv))
    · exact List.mem_map_of_mem
        (definitions_subset_of_walk hop (argument_mem_definitions hr hb hv))

/-! ### Names by first definitions -/

lemma numbered_append (n k : ℕ) (ds es : List Definition) :
    numbered n k (ds ++ es) =
      numbered n k ds ++ numbered (n + ds.countP isResult) (k + ds.countP isArgument) es := by
  induction ds generalizing n k with
  | nil => rfl
  | cons d ds ih =>
    cases d <;> simp only [List.cons_append, numbered, ih, List.countP_cons, isResult, isArgument,
      if_true, Bool.false_eq_true, if_false, Nat.add_zero, Nat.add_assoc, Nat.add_comm 1]

lemma numbered_cons (n k : ℕ) (d : Definition) (ds : List Definition) :
    ∃ m j, numbered n k (d :: ds) = (d.id, d.nameAt n k) :: numbered m j ds := by
  cases d
  · exact ⟨n + 1, k, rfl⟩
  · exact ⟨n, k + 1, rfl⟩

lemma Names.find?_append (es fs : List (ValueId × String)) (i : ValueId) :
    (Names.mk (es ++ fs)).find? i = ((Names.mk es).find? i).or ((Names.mk fs).find? i) := by
  simp only [Names.find?, List.find?_append]
  cases es.find? (·.1 = i) <;> rfl

lemma Names.find?_eq_none_iff {n : Names} {i : ValueId} :
    n.find? i = none ↔ i ∉ n.entries.map Prod.fst := by
  rw [Names.find?, Option.map_eq_none_iff, List.find?_eq_none]
  constructor
  · rintro h hi
    obtain ⟨e, he, rfl⟩ := List.mem_map.mp hi
    exact h e he (decide_eq_true rfl)
  · intro h e he hid
    exact h (List.mem_map.mpr ⟨e, he, of_decide_eq_true hid⟩)

lemma find?_of_first {root : Operation} {before after : List Definition} {d : Definition}
    (h : definitions root = before ++ d :: after) (hfirst : d.id ∉ before.map Definition.id) :
    (Names.ofOperation root).find? d.id =
      some (d.nameAt (before.countP isResult) (before.countP isArgument)) := by
  have hbefore : (Names.mk (numbered 0 0 before)).find? d.id = none := by
    rw [Names.find?_eq_none_iff, map_fst_numbered]
    exact hfirst
  obtain ⟨m, j, hcons⟩ :=
    numbered_cons (0 + before.countP isResult) (0 + before.countP isArgument) d after
  rw [Names.ofOperation, h, numbered_append, Names.find?_append, hbefore, hcons, Nat.zero_add,
    Nat.zero_add]
  simp [Names.find?]

lemma exists_append_of_getElem?_filter {α : Type} {p : α → Bool} {l : List α} {k : ℕ} {a : α}
    (h : (l.filter p)[k]? = some a) :
    ∃ before after, l = before ++ a :: after ∧ before.countP p = k := by
  induction l generalizing k with
  | nil => simp at h
  | cons b l ih =>
    by_cases hb : p b = true
    · rw [List.filter_cons_of_pos hb] at h
      cases k with
      | zero =>
        obtain rfl : b = a := by simpa using h
        exact ⟨[], l, rfl, rfl⟩
      | succ k =>
        obtain ⟨before, after, rfl, hk⟩ := ih (List.getElem?_cons_succ ▸ h)
        exact ⟨b :: before, after, rfl, by rw [List.countP_cons_of_pos hb, hk]⟩
    · rw [List.filter_cons_of_neg hb] at h
      obtain ⟨before, after, rfl, hk⟩ := ih h
      exact ⟨b :: before, after, rfl, by rw [List.countP_cons_of_neg hb, hk]⟩

/-! ### The walk -/

def Names.enter (n : Names) (i : ValueId) (name : String) : Names :=
  if (n.find? i).isSome then n else ⟨n.entries ++ [(i, name)]⟩

lemma Names.find?_enter (n : Names) (i j : ValueId) (name : String) :
    (n.enter i name).find? j = (n.find? j).or ((Names.mk [(i, name)]).find? j) := by
  rw [enter]
  split
  · rename_i hsome
    by_cases hij : i = j
    · obtain ⟨other, hother⟩ := Option.isSome_iff_exists.mp hsome
      rw [← hij, hother, Option.some_or]
    · simp [Names.find?, hij]
  · exact find?_append _ _ _

lemma Names.map_fst_enter (n : Names) (i : ValueId) (name : String) :
    (n.enter i name).entries.map Prod.fst =
      if i ∈ n.entries.map Prod.fst then n.entries.map Prod.fst
      else n.entries.map Prod.fst ++ [i] := by
  have hsome : (n.find? i).isSome ↔ i ∈ n.entries.map Prod.fst := by
    rw [← not_iff_not, ← find?_eq_none_iff, Option.not_isSome_iff_eq_none]
  simp only [enter, hsome]
  split
  · rfl
  · rw [List.map_append, List.map_singleton]

/-- What is known during the walk that gives names: the names so far, and the numbers of the next
result and the next block argument. -/
structure Numbering where
  names : Names := ⟨[]⟩
  results : UInt32 := 0
  arguments : UInt32 := 0

namespace Numbering

/-- Counts a definition, and names its id unless that has a name. -/
def define (s : Numbering) : Definition → Numbering
  | .result i =>
    { s with
      names := s.names.enter i ("%" ++ toString s.results.toNat)
      results := s.results + 1 }
  | .argument i =>
    { s with
      names := s.names.enter i ("%arg" ++ toString s.arguments.toNat)
      arguments := s.arguments + 1 }

/-- Walks over an operation: its results, and then, block by block, the arguments and what is
nested. -/
def walk (s : Numbering) (op : Operation) : Numbering :=
  op.regions.foldl
    (fun s r => r.blocks.foldl
      (fun s b => b.operations.foldl walk
        (b.arguments.foldl (fun s v => s.define (.argument v.id)) s)) s)
    (op.results.foldl (fun s v => s.define (.result v.id)) s)
termination_by op
decreasing_by exact sizeOf_lt ‹_› ‹_› ‹_›

lemma walk_eq_foldl (s : Numbering) (op : Operation) :
    s.walk op = (definitions op).foldl define s := by
  induction op using nested_induction generalizing s with
  | nest op ih =>
    rw [walk, definitions]
    simp only [List.foldl_append, List.foldl_map, List.foldl_flatMap]
    refine List.foldl_ext _ _ _ fun s r hr => List.foldl_ext _ _ _ fun s b hb => ?_
    exact List.foldl_ext _ _ _ fun s o ho => ih r hr b hb o ho s

/-- The walk has met the definitions `ds`. -/
structure Met (s : Numbering) (ds : List Definition) : Prop where
  results : s.results.toNat = ds.countP isResult
  arguments : s.arguments.toNat = ds.countP isArgument
  find : ∀ i, s.names.find? i = (Names.mk (numbered 0 0 ds)).find? i
  ids : s.names.entries.map Prod.fst = (ds.map Definition.id).eraseDups

lemma names_define (s : Numbering) (d : Definition) :
    (s.define d).names = s.names.enter d.id (d.nameAt s.results.toNat s.arguments.toNat) := by
  cases d <;> rfl

lemma met_start : ({} : Numbering).Met [] := ⟨rfl, rfl, fun _ => rfl, rfl⟩

lemma toNat_add_one {w : UInt32} {n : ℕ} (h : w.toNat = n) (hn : n + 1 < UInt32.size) :
    (w + 1).toNat = n + 1 := by
  calc (w + 1).toNat = (n + 1) % UInt32.size := by rw [UInt32.toNat_add, h]; rfl
    _ = n + 1 := Nat.mod_eq_of_lt hn

lemma Met.define {s : Numbering} {ds : List Definition} (h : s.Met ds) (d : Definition)
    (hresults : (ds ++ [d]).countP isResult < UInt32.size)
    (harguments : (ds ++ [d]).countP isArgument < UInt32.size) :
    (s.define d).Met (ds ++ [d]) := by
  refine ⟨?_, ?_, fun i => ?_, ?_⟩
  · rw [List.countP_append] at hresults ⊢
    cases d
    · exact toNat_add_one h.results hresults
    · exact h.results
  · rw [List.countP_append] at harguments ⊢
    cases d
    · exact h.arguments
    · exact toNat_add_one h.arguments harguments
  · -- The counters stand where the numbering of one more definition goes on.
    have hlast : numbered (0 + ds.countP isResult) (0 + ds.countP isArgument) [d] =
        [(d.id, d.nameAt s.results.toNat s.arguments.toNat)] := by
      rw [Nat.zero_add, Nat.zero_add, ← h.results, ← h.arguments]
      cases d <;> rfl
    rw [numbered_append, Names.find?_append, ← h.find, hlast, names_define, Names.find?_enter]
  · rw [names_define, Names.map_fst_enter, h.ids, List.map_append, List.map_singleton,
      eraseDups_concat]
    simp only [List.mem_eraseDups]

/-- **What the walk knows** after any definitions are the counts of these and their names. -/
lemma Met.foldl {s : Numbering} {ds : List Definition} (h : s.Met ds) (es : List Definition)
    (hresults : (ds ++ es).countP isResult < UInt32.size)
    (harguments : (ds ++ es).countP isArgument < UInt32.size) :
    (es.foldl Numbering.define s).Met (ds ++ es) := by
  induction es generalizing s ds with
  | nil => simpa using h
  | cons d es ih =>
    have hsplit : ds ++ d :: es = ds ++ [d] ++ es := by simp
    rw [hsplit] at hresults harguments ⊢
    refine ih (h.define d ?_ ?_) hresults harguments
    · rw [List.countP_append] at hresults
      omega
    · rw [List.countP_append] at harguments
      omega

lemma met_walk {root : Operation} (hresults : root.allResults.length < UInt32.size)
    (harguments : root.allArguments.length < UInt32.size) :
    (({} : Numbering).walk root).Met (definitions root) := by
  rw [walk_eq_foldl]
  refine met_start.foldl (definitions root) ?_ ?_
  · rwa [List.nil_append, List.countP_eq_length_filter, filter_isResult, List.length_map]
  · rwa [List.nil_append, List.countP_eq_length_filter, filter_isArgument, List.length_map]

end Numbering

/-! ### Unambiguous names -/

/-- The names tell the ids of a program apart, and count its first definitions. -/
structure Names.Unambiguous (n : Names) (root : Operation) : Prop where
  unknown_iff : ∀ v, n.name v = unknown ↔ ¬ root.Defines v.id
  name_eq_iff : ∀ v w, root.Defines v.id → root.Defines w.id → (n.name v = n.name w ↔ v.id = w.id)
  /-- An id that is first defined by a result is numbered by the results before it. -/
  result : ∀ before after v, definitions root = before ++ .result v.id :: after →
    v.id ∉ before.map Definition.id → n.name v = "%" ++ toString (before.countP isResult)
  /-- An id that is first defined by a block argument is numbered by those before it. -/
  argument : ∀ before after v, definitions root = before ++ .argument v.id :: after →
    v.id ∉ before.map Definition.id → n.name v = "%arg" ++ toString (before.countP isArgument)
  /-- Where no id is defined twice, names are given without gaps. -/
  nodup : ((definitions root).map Definition.id).Nodup →
    root.allResults.map n.name =
        (List.range root.allResults.length).map (fun k => "%" ++ toString k) ∧
      root.allArguments.map n.name =
        (List.range root.allArguments.length).map (fun k => "%arg" ++ toString k) ∧
      n.size = (definitions root).length

lemma unknown_ne_of_isValueName {s : String} (hs : IsValueName s) : s ≠ Names.unknown := by
  obtain ⟨w, hw, -⟩ := hs
  rintro rfl
  exact absurd (List.cons.inj hw).1 (by decide)

/-- If no id is defined twice, every definition counts: definitions of a kind are named without
gaps. -/
lemma map_name_of_nodup {root : Operation} {p : Definition → Bool} {g : ValueId → Definition}
    {vs : List Value} {text : ℕ → String} (h : ((definitions root).map Definition.id).Nodup)
    (hfilter : (definitions root).filter p = vs.map fun v => g v.id)
    (hid : ∀ i, (g i).id = i)
    (htext : ∀ (i : ValueId) (before : List Definition),
      (g i).nameAt (before.countP isResult) (before.countP isArgument) = text (before.countP p)) :
    vs.map (Names.ofOperation root).name = (List.range vs.length).map text := by
  refine List.ext_getElem (by simp) fun k hk hk' => ?_
  have hlt : k < vs.length := by simpa using hk
  have hkth : ((definitions root).filter p)[k]? = some (g vs[k].id) := by simp [hfilter, hlt]
  obtain ⟨before, after, hsplit, hcount⟩ := exists_append_of_getElem?_filter hkth
  have hfirst : (g vs[k].id).id ∉ before.map Definition.id := by
    intro hmem
    rw [hsplit, List.map_append, List.map_cons] at h
    exact List.disjoint_of_nodup_append h hmem (.head _)
  have hfind := find?_of_first hsplit hfirst
  rw [hid, htext, hcount] at hfind
  rw [List.getElem_map, List.getElem_map, List.getElem_range, Names.name, hfind, Option.getD_some]

/-- **Names are unambiguous**, also where ids are defined twice or nowhere. -/
theorem unambiguous_ofOperation (root : Operation) :
    (Names.ofOperation root).Unambiguous root := by
  have hentries : (Names.ofOperation root).entries.map Prod.fst =
      (definitions root).map Definition.id := map_fst_numbered 0 0 _
  have hdefines (i : ValueId) :
      i ∈ (Names.ofOperation root).entries.map Prod.fst ↔ root.Defines i := by
    rw [hentries, mem_definitions_iff]
  have hproper := Names.proper_ofOperation root
  refine ⟨fun v => ?_, fun v w hv hw => ?_, fun before after v h hfirst => ?_,
    fun before after v h hfirst => ?_, fun h =>
      ⟨map_name_of_nodup h (filter_isResult root) (fun _ => rfl) fun _ _ => rfl,
        map_name_of_nodup h (filter_isArgument root) (fun _ => rfl) fun _ _ => rfl, ?_⟩⟩
  · rw [← hdefines]
    constructor
    · intro hunknown hmem
      obtain ⟨e, he, -, -, hname⟩ := Names.exists_entry_of_mem hmem
      exact unknown_ne_of_isValueName (hproper.names e he) (hname.symm.trans hunknown)
    · intro hmem
      rw [Names.name, Names.find?_eq_none_iff.mpr hmem, Option.getD_none]
  · rw [← hdefines] at hv hw
    obtain ⟨e, he, hv, hfind, hname⟩ := Names.exists_entry_of_mem hv
    obtain ⟨e', he', hw, hfind', hname'⟩ := Names.exists_entry_of_mem hw
    constructor
    · intro h
      have hsame : e.2 = e'.2 := hname.symm.trans (h.trans hname')
      rw [← hv, List.inj_on_of_nodup_map hproper.nodup he he' hsame, hw]
    · intro h
      rw [Names.name, Names.name, h]
  · have hfind := find?_of_first h hfirst
    rw [Definition.id] at hfind
    rw [Names.name, hfind, Option.getD_some, nameAt]
  · have hfind := find?_of_first h hfirst
    rw [Definition.id] at hfind
    rw [Names.name, hfind, Option.getD_some, nameAt]
  · rw [Names.size, Names.ids, hentries, eraseDups_eq_self h, List.length_map]

/-- **SSA names are unambiguous.** One walk with two counters and a table in which the first entry
counts finds the names of a program; they are unknown for the ids that are defined nowhere, differ
for different ids, and number first definitions. -/
theorem value_names_unambiguous {root : Operation}
    (hresults : root.allResults.length < UInt32.size)
    (harguments : root.allArguments.length < UInt32.size) :
    let walked := (({} : Numbering).walk root).names
    let n := Names.ofOperation root
    walked.name = n.name ∧ walked.entries.length = n.size ∧ n.Unambiguous root := by
  intro walked n
  have hmet := Numbering.met_walk hresults harguments
  refine ⟨funext fun v => ?_, ?_, unambiguous_ofOperation root⟩
  · rw [Names.name, Names.name, hmet.find]
    rfl
  · have hids : n.ids = ((definitions root).map Definition.id).eraseDups := by
      rw [Names.ids]
      exact congrArg _ (map_fst_numbered 0 0 _)
    rw [Names.size, hids, ← hmet.ids, List.length_map]

/-- A program in which a result has the id of a block argument, and an argument that of a result. -/
theorem value_names_unambiguous_repeated :
    let v (i : UInt32) : Value := ⟨⟨i⟩, .index⟩
    let inner : Operation := { name := "add", operands := [v 3], results := [v 9, v 8] }
    let root : Operation := {
      name := "main"
      results := [v 7]
      regions := [{ blocks := [{ arguments := [v 7, v 9], operations := [inner] }] }] }
    let walked := (({} : Numbering).walk root).names
    walked.name (v 7) = "%0" ∧ walked.name (v 9) = "%arg1" ∧ walked.name (v 8) = "%2" ∧
      walked.name (v 3) = Names.unknown ∧ walked.entries.length = 3 := by
  intro v inner root walked
  have hdefinitions : definitions root = [.result ⟨7⟩, .argument ⟨7⟩, .argument ⟨9⟩, .result ⟨9⟩,
      .result ⟨8⟩] := by
    simp [definitions, root, inner, v]
  have hresults : root.allResults.length < UInt32.size := by
    simp [allResults, Operation.walk, root, inner, UInt32.size]
  have harguments : root.allArguments.length < UInt32.size := by
    simp [allArguments, root, inner, UInt32.size]
  have hundefined : ¬ root.Defines ⟨3⟩ := by
    rw [← mem_definitions_iff, hdefinitions]
    decide
  obtain ⟨hname, hsize, hnames⟩ := value_names_unambiguous hresults harguments
  refine ⟨?_, ?_, ?_, ?_, ?_⟩
  · rw [hname]
    exact hnames.result [] _ (v 7) hdefinitions (by simp)
  · rw [hname]
    exact hnames.argument [.result ⟨7⟩, .argument ⟨7⟩] _ (v 9) hdefinitions (by decide)
  · rw [hname]
    exact hnames.result [.result ⟨7⟩, .argument ⟨7⟩, .argument ⟨9⟩, .result ⟨9⟩] [] (v 8)
      hdefinitions (by decide)
  · rw [hname]
    exact (hnames.unknown_iff (v 3)).mpr hundefined
  · rw [hsize, Names.size, Names.ids]
    have hentries : (Names.ofOperation root).entries.map Prod.fst =
        (definitions root).map Definition.id := map_fst_numbered 0 0 _
    rw [hentries, hdefinitions]
    decide

end Print

end OpTree
