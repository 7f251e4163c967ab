import OpTree.Analysis.Basic
import OpTree.Proofs.Layout
import OpTree.Proofs.OrderedMaps

/-!
What the census of a program says. Going through the program, each operation is added to the number
of those with its name; so the numbers are those of the operations met, the names stand in the order
in which they are first met, and all numbers together are as many as there are operations. As many
lines of the text form begin an operation.
-/

namespace OpTree

open OpTree.IR OpTree.Data

def IR.Operation.occurrences (name : String) (op : Operation) : ℕ :=
  (if op.name = name then 1 else 0) + (op.regions.map fun r => (r.blocks.map fun b =>
    (b.operations.map (occurrences name)).sum).sum).sum
termination_by op
decreasing_by exact sizeOf_lt ‹_› ‹_› ‹_›

lemma IR.Operation.count_walk (name : String) (op : Operation) :
    (op.walk.map (·.name)).count name = op.occurrences name := by
  induction op using nested_induction with
  | nest op ih =>
    have hoperations : ∀ r ∈ op.regions, ∀ b ∈ r.blocks,
        b.operations.map (fun c => (c.walk.map (·.name)).count name) =
          b.operations.map (occurrences name) :=
      fun r hr b hb => List.map_congr_left (ih r hr b hb)
    have hregions : op.regions.map (fun r => (r.blocks.map fun b =>
        (b.operations.map fun c => (c.walk.map (·.name)).count name).sum).sum) =
        op.regions.map fun r => (r.blocks.map fun b =>
          (b.operations.map (occurrences name)).sum).sum :=
      List.map_congr_left fun r hr => congrArg List.sum
        (List.map_congr_left fun b hb => congrArg List.sum (hoperations r hr b hb))
    rw [occurrences, ← hregions, walk, List.map_cons, List.count_cons, Nat.add_comm]
    simp only [List.map_flatMap, List.count_flatMap, Function.comp_def, beq_iff_eq]

namespace Analysis.Counts

/-! ### Counting -/

lemma sum_values_insert (m : OrderedMap ℕ) (key : String) (value : ℕ) :
    (m.insert key value).values.sum + (m.get? key).getD 0 = m.values.sum + value := by
  have hentries : (m.insert key value).entries = upsert key value m.entries := rfl
  rw [OrderedMap.values, OrderedMap.values, OrderedMap.get?, hentries]
  induction m.entries with
  | nil => simp [upsert]
  | cons e l ih =>
    obtain ⟨k, v⟩ := e
    rw [upsert]
    by_cases hk : k = key
    · simp only [hk, if_true, List.map_cons, List.sum_cons, List.find?_cons, beq_self_eq_true,
        Option.map_some, Option.getD_some]
      omega
    · have hne : (k == key) = false := by simpa using hk
      simp only [hk, if_false, List.map_cons, List.sum_cons, List.find?_cons, hne] at ih ⊢
      omega

/-- The numbers are those of the names met so far. -/
structure Tallies (m : OrderedMap ℕ) (met : List String) : Prop where
  get : ∀ name, (m.get? name).getD 0 = met.count name
  keys : m.keys = met.eraseDups
  total : m.values.sum = met.length

lemma tallies_empty : Tallies .empty [] := ⟨fun _ => rfl, rfl, rfl⟩

lemma Tallies.bump {m : OrderedMap ℕ} {met : List String} (h : Tallies m met) (name : String) :
    Tallies (bump m name) (met ++ [name]) where
  get n := by
    rw [Counts.bump, OrderedMap.get?_insert, List.count_append, ← h.get]
    by_cases hn : n = name
    · rw [if_pos hn, hn, List.count_singleton_self, Option.getD_some]
    · rw [if_neg hn, List.count_singleton, if_neg (by simpa using Ne.symm hn), Nat.add_zero]
  keys := by
    rw [Counts.bump, OrderedMap.keys_insert, h.keys, eraseDups_concat, noteOnce]
    simp only [List.mem_eraseDups]
  total := by
    have hsum := sum_values_insert m name ((m.get? name).getD 0 + 1)
    have htotal := h.total
    rw [Counts.bump, List.length_append, List.length_singleton]
    omega

lemma Tallies.foldl {m : OrderedMap ℕ} {met : List String} (h : Tallies m met)
    (ops : List Operation) :
    Tallies (ops.foldl (fun m o => Counts.bump m o.name) m) (met ++ ops.map (·.name)) := by
  induction ops generalizing m met with
  | nil => simpa using h
  | cons o ops ih =>
    rw [List.foldl_cons, List.map_cons, ← List.singleton_append, ← List.append_assoc]
    exact ih (h.bump o.name)

/-- **What is counted is what is met.** -/
lemma tallies_ofOperation (op : Operation) :
    Tallies (ofOperation op).entries (op.walk.map (·.name)) := by
  have h := tallies_empty.foldl op.walk
  rwa [List.nil_append] at h

lemma total_eq (op : Operation) : (ofOperation op).total = op.count := by
  have h := (tallies_ofOperation op).total
  rw [List.length_map] at h
  rw [total, ← List.sum_eq_foldr, h, Operation.count]

end Analysis.Counts

/-! ### Lines that begin an operation -/

namespace Print

def Line.isHeader (l : Line) : Bool := l.role = .whole || l.role = .opening

/-- What an operation begins with: all of it, if it has no regions, else what stands in front of
them. -/
def Session.header (s : Session) (op : Operation) : String :=
  s.head op ++ if op.regions.isEmpty then s.tail op else " (\x7b"

lemma filter_intercalate {α : Type} {p : α → Bool} {sep : List α} (hsep : sep.filter p = [])
    (ls : List (List α)) : (sep.intercalate ls).filter p = ls.flatMap (List.filter p) := by
  simp only [← List.filterMap_eq_filter] at hsep ⊢
  exact filterMap_intercalate hsep ls

section

variable {s : Session} (hs : s.flags.skipRegions = false)

lemma filter_isHeader_labelLines (level index : ℕ) (b : Block) :
    (s.labelLines level index b).filter Line.isHeader = [] := by
  rw [Session.labelLines]
  split <;> rfl

lemma filter_isHeader_regionLines (level : ℕ) (r : Region) :
    (s.regionLines level r).filter Line.isHeader = r.blocks.flatMap fun b =>
      b.operations.flatMap fun c => (s.lines (level + 1) c).filter Line.isHeader := by
  rw [regionLines_eq, List.filter_flatMap, flatMap_eq_zipIdx _ r.blocks]
  simp only [List.filter_append, filter_isHeader_labelLines, List.nil_append, List.filter_flatMap]

include hs in
/-- **The lines that begin an operation** begin those that the walk meets, in its order. -/
theorem headers_lines (level : ℕ) (op : Operation) :
    ((s.lines level op).filter Line.isHeader).map Line.text = op.walk.map s.header := by
  induction op using Operation.nested_induction generalizing level with
  | nest op ih =>
    rw [Operation.walk, List.map_cons]
    by_cases hregions : op.regions.isEmpty
    · rw [Session.lines, if_pos hregions, List.isEmpty_iff.mp hregions, Session.header,
        if_pos hregions]
      rfl
    · have hheader : s.header op = s.head op ++ " (\x7b" := by
        rw [Session.header, if_neg hregions]
      have hseparator :
          [(⟨level, .separator, "\x7d, \x7b"⟩ : Line)].filter Line.isHeader = [] := rfl
      have hclosing :
          [(⟨level, .closing, "\x7d)" ++ s.tail op⟩ : Line)].filter Line.isHeader = [] := rfl
      have hnested : ((op.regions.map (s.regionLines level)).flatMap
          (List.filter Line.isHeader)).map Line.text =
          (op.regions.flatMap fun r => r.blocks.flatMap fun b =>
            b.operations.flatMap Operation.walk).map s.header := by
        simp only [List.flatMap_map, filter_isHeader_regionLines, List.map_flatMap]
        exact List.flatMap_congr fun r hr => List.flatMap_congr fun b hb =>
          List.flatMap_congr fun c hc => ih r hr b hb c hc (level + 1)
      rw [Session.lines_of_regions hs level (by simpa using hregions), List.filter_cons_of_pos rfl,
        List.filter_append, filter_intercalate hseparator, hclosing, List.append_nil,
        List.map_cons, hnested, hheader]

end

end Print

/-! ### The census -/

namespace Analysis

/-- **The census of a program is exact.** Each number is how often the name occurs in the tree; the
names are those that occur, each once and in the order in which the walk first meets them; and all
numbers together are as many as there are operations, and as there are lines of the text form that
begin one, if regions are shown. -/
theorem census_exact (ε : Type) (op : Operation) {f : Print.Flags} (hf : f.skipRegions = false)
    (ansi : Bool) :
    let met := op.walk.map (·.name)
    let headers := (Print.lines ansi f op).filter Print.Line.isHeader
    ∃ c, (operationCount ε).analyze op = .ok c ∧
      (∀ name, c.get name = op.occurrences name) ∧
      c.entries.keys.Nodup ∧ (∀ name, name ∈ c.entries.keys ↔ ∃ o ∈ op.walk, o.name = name) ∧
      c.entries.keys.Pairwise (fun a b => met.idxOf a < met.idxOf b) ∧
      c.total = op.count ∧ c.total = headers.length ∧
      headers.map Print.Line.text = op.walk.map (Print.Session.ofOperation ansi f op).header := by
  intro met headers
  have htallies := Counts.tallies_ofOperation op
  have hheaders : headers.map Print.Line.text = _ :=
    Print.headers_lines (s := .ofOperation ansi f op) hf 0 op
  have hlength : op.count = headers.length := by
    have h := congrArg List.length hheaders
    rw [List.length_map, List.length_map] at h
    exact h.symm
  refine ⟨.ofOperation op, rfl, fun name => ?_, ?_, fun name => ?_, ?_, Counts.total_eq op,
    (Counts.total_eq op).trans hlength, hheaders⟩
  · exact (htallies.get name).trans (op.count_walk name)
  · exact (Counts.ofOperation op).entries.nodup
  · rw [htallies.keys, List.mem_eraseDups, List.mem_map]
  · rw [htallies.keys]
    exact pairwise_eraseDups met

/-- A program in which names are repeated at different depths. -/
def repeating : Operation where
  name := "a"
  regions := [
    { blocks := [{ operations := [{ name := "b" }, { name := "a" }] },
        { operations := [{ name := "b", regions := [{ blocks := [] }] }] }] },
    { blocks := [{ operations := [{ name := "c" }] }] }]

theorem census_exact_repeating :
    let f : Print.Flags := { debugInfo := true }
    let headers := (Print.lines false f repeating).filter Print.Line.isHeader
    f.skipRegions = false ∧ ∃ c, (operationCount Empty).analyze repeating = .ok c ∧
      c.get "a" = 2 ∧ c.get "b" = 2 ∧ c.get "d" = 0 ∧ c.total = 5 ∧ headers.length = 5 := by
  intro f headers
  obtain ⟨c, hc, hget, -, -, -, htotal, hheaders, -⟩ :=
    census_exact Empty repeating (f := f) rfl false
  have hcount : repeating.count = 5 := by simp [repeating, Operation.count, Operation.walk]
  have hfive : c.total = 5 := htotal.trans hcount
  refine ⟨rfl, c, hc, ?_, ?_, ?_, hfive, hheaders.symm.trans hfive⟩
  all_goals
    rw [hget]
    simp [repeating, Operation.occurrences]

end Analysis

end OpTree
