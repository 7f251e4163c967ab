import OpTree.Analysis.Basic
import OpTree.Proofs.OrderedMaps
import OpTree.Proofs.Results
import Mathlib.Order.Bounds.Basic

/-!
Which programs have a table of symbols. Definitions are entered in the order of the walk, also
behind a symbol that is defined again; that symbol is kept if it is the first. So there is a table
exactly if no symbol is defined twice, and it holds the definitions as they were met; else the
symbol is named of which a second definition comes first.
-/

namespace OpTree.Analysis

open OpTree.IR OpTree.Data

/-! ### Repetitions -/

/-- What stands at a position stands before it too. -/
def RepeatsAt (l : List String) (i : ℕ) : Prop := ∃ s, l[i]? = some s ∧ s ∈ l.take i

lemma not_repeatsAt_of_nodup {l : List String} (h : l.Nodup) (i : ℕ) : ¬ RepeatsAt l i := by
  rintro ⟨s, hi, hmem⟩
  obtain ⟨j, hj, hjs⟩ := List.mem_take_iff_getElem.mp hmem
  obtain ⟨hlt, his⟩ := List.getElem?_eq_some_iff.mp hi
  have heq : j = i := (List.Nodup.getElem_inj_iff h).mp (hjs.trans his.symm)
  omega

lemma isLeast_repeatsAt {l r : List String} {s : String} (hl : l.Nodup) (hs : s ∈ l) :
    IsLeast {i | RepeatsAt (l ++ s :: r) i} l.length := by
  refine ⟨⟨s, by simp, by simpa using hs⟩, fun i hi => ?_⟩
  by_contra hlt
  rw [not_le] at hlt
  obtain ⟨t, hit, hmem⟩ := hi
  rw [List.getElem?_append_left hlt] at hit
  rw [List.take_append_of_le_length (Nat.le_of_lt hlt)] at hmem
  exact not_repeatsAt_of_nodup hl i ⟨t, hit, hmem⟩

/-- **A first repetition is found** behind different elements that are seen already, or there is
none. -/
lemma firstRepeated?_cases {seen l r : List String} (hseen : ∀ s, s ∈ seen ↔ s ∈ l)
    (hl : l.Nodup) :
    (firstRepeated? seen r = none ∧ (l ++ r).Nodup) ∨
      ∃ i s, firstRepeated? seen r = some s ∧ IsLeast {i | RepeatsAt (l ++ r) i} i ∧
        (l ++ r)[i]? = some s := by
  induction r generalizing seen l with
  | nil => exact .inl ⟨rfl, by simpa using hl⟩
  | cons s r ih =>
    rw [firstRepeated?]
    split
    · rename_i hmem
      exact .inr ⟨l.length, s, rfl, isLeast_repeatsAt hl ((hseen s).mp hmem), by simp⟩
    · rename_i hnew
      have hl' : (l ++ [s]).Nodup :=
        List.nodup_append.mpr ⟨hl, List.nodup_singleton s, fun a ha b hb hab => by
          rw [hab, List.mem_singleton.mp hb] at ha
          exact hnew ((hseen s).mpr ha)⟩
      have hseen' : ∀ t, t ∈ s :: seen ↔ t ∈ l ++ [s] := fun t => by
        rw [List.mem_cons, List.mem_append, List.mem_singleton, hseen, or_comm]
      simpa only [List.append_assoc, List.singleton_append] using ih hseen' hl'

/-! ### Entering definitions -/

namespace SymbolTable

/-- What is known while definitions are entered: all of them, a later one in the place of an
earlier one with its symbol, and the symbol to which this happened first. -/
structure Scan where
  table : OrderedMap String := .empty
  repeated : Option String := none

namespace Scan

def enter (s : Scan) (d : String × String) : Scan where
  table := s.table.insert d.1 d.2
  repeated := if (s.table.get? d.1).isSome ∧ s.repeated.isNone then some d.1 else s.repeated

def meet (s : Scan) (o : Operation) : Scan :=
  match o.symbol? with
  | some symbol => s.enter (symbol, o.name)
  | none => s

/-- What is known behind a whole program. -/
def ofOperation (op : Operation) : Scan := op.walk.foldl meet {}

def result (s : Scan) : Except String SymbolTable :=
  match s.repeated with
  | some symbol => .error symbol
  | none => .ok ⟨s.table⟩

lemma foldl_meet (s : Scan) (op : Operation) :
    op.walk.foldl meet s = (symbolDefinitions op).foldl enter s := by
  rw [symbolDefinitions, List.foldl_filterMap]
  congr 1
  funext t o
  rw [meet]
  cases o.symbol? <;> rfl

lemma table_foldl (s : Scan) (ds : List (String × String)) :
    (ds.foldl enter s).table = ds.foldl (fun m d => m.insert d.1 d.2) s.table := by
  induction ds generalizing s with
  | nil => rfl
  | cons d ds ih => exact ih (s.enter d)

lemma repeated_foldl_of_some {s : Scan} {symbol : String} (h : s.repeated = some symbol)
    (ds : List (String × String)) : (ds.foldl enter s).repeated = some symbol := by
  induction ds generalizing s with
  | nil => exact h
  | cons d ds ih =>
    have hkept : (s.enter d).repeated = some symbol := by simp [enter, h]
    exact ih hkept

lemma repeated_foldl {s : Scan} {seen : List String} (hseen : ∀ k, k ∈ seen ↔ k ∈ s.table.keys)
    (h : s.repeated = none) (ds : List (String × String)) :
    (ds.foldl enter s).repeated = firstRepeated? seen (ds.map Prod.fst) := by
  induction ds generalizing s seen with
  | nil => exact h
  | cons d ds ih =>
    rw [List.foldl_cons, List.map_cons, firstRepeated?]
    have hpresent : (s.table.get? d.1).isSome ↔ d.1 ∈ seen :=
      OrderedMap.isSome_get?_iff.trans (hseen d.1).symm
    split
    · rename_i hmem
      exact repeated_foldl_of_some (if_pos ⟨hpresent.mpr hmem, by rw [h]; rfl⟩) ds
    · rename_i hnew
      refine ih (fun k => ?_) ((if_neg fun hold => hnew (hpresent.mp hold.1)).trans h)
      have hkeys : (s.enter d).table.keys = s.table.keys ++ [d.1] :=
        (OrderedMap.keys_insert _ _ _).trans (if_neg fun hold => hnew ((hseen d.1).mpr hold))
      rw [hkeys, List.mem_cons, List.mem_append, List.mem_singleton, hseen, or_comm]

/-- **Entering definitions one by one gives the table of a program**, or the symbol that is
repeated first. -/
lemma result_ofOperation (op : Operation) :
    (ofOperation op).result = SymbolTable.ofOperation op := by
  have hrepeated : (ofOperation op).repeated =
      firstRepeated? [] ((symbolDefinitions op).map Prod.fst) := by
    rw [ofOperation, foldl_meet]
    exact repeated_foldl (fun k => Iff.rfl) rfl _
  have htable : (ofOperation op).table = .ofList (symbolDefinitions op) := by
    rw [ofOperation, foldl_meet, table_foldl, OrderedMap.ofList]
  rw [result, hrepeated, htable]
  rfl

end Scan

/-! ### The table -/

lemma map_fst_symbolDefinitions (op : Operation) :
    (symbolDefinitions op).map Prod.fst = op.walk.filterMap (·.symbol?) := by
  simp [symbolDefinitions, List.map_filterMap, Function.comp_def]

lemma mem_symbolDefinitions_iff {op : Operation}
    (h : ((symbolDefinitions op).map Prod.fst).Nodup) {symbol name : String} :
    (symbol, name) ∈ symbolDefinitions op ↔
      ∃ o, op.walk.filter (·.symbol? = some symbol) = [o] ∧ o.name = name := by
  have hmem : (symbol, name) ∈ symbolDefinitions op ↔
      ∃ o ∈ op.walk.filter (·.symbol? = some symbol), o.name = name := by
    simp only [symbolDefinitions, List.mem_filterMap, Option.map_eq_some_iff, List.mem_filter,
      decide_eq_true_eq, Prod.mk.injEq]
    constructor
    · rintro ⟨o, ho, s, hs, rfl, hname⟩
      exact ⟨o, ⟨ho, hs⟩, hname⟩
    · rintro ⟨o, ⟨ho, hs⟩, hname⟩
      exact ⟨o, ho, symbol, hs, rfl, hname⟩
  have hlength : (op.walk.filter (·.symbol? = some symbol)).length ≤ 1 := by
    have hcount := List.nodup_iff_count_le_one.mp h symbol
    rw [map_fst_symbolDefinitions, List.count_filterMap, List.countP_eq_length_filter] at hcount
    simpa only [beq_eq_decide] using hcount
  rw [hmem]
  constructor
  · rintro ⟨o, ho, hname⟩
    obtain ⟨o', ho'⟩ : ∃ o', op.walk.filter (·.symbol? = some symbol) = [o'] :=
      List.length_eq_one_iff.mp (Nat.le_antisymm hlength (List.length_pos_of_mem ho))
    rw [ho', List.mem_singleton] at ho
    exact ⟨o', ho', by rw [← ho, hname]⟩
  · rintro ⟨o, ho, hname⟩
    exact ⟨o, by rw [ho]; exact .head _, hname⟩

lemma ofOperation_cases (op : Operation) :
    let definitions := symbolDefinitions op
    let symbols := definitions.map Prod.fst
    (symbols.Nodup ∧ ∃ t, ofOperation op = .ok t ∧ t.entries.entries = definitions) ∨
      ∃ i symbol, ofOperation op = .error symbol ∧ IsLeast {i | RepeatsAt symbols i} i ∧
        symbols[i]? = some symbol := by
  intro definitions symbols
  have hcases := firstRepeated?_cases (r := symbols) (fun s => Iff.refl (s ∈ [])) List.nodup_nil
  rcases hcases with ⟨hnone, hnodup⟩ | ⟨i, symbol, hsome, hfirst⟩
  · refine .inl ⟨hnodup, ⟨.ofList definitions⟩, ?_, OrderedMap.entries_ofList hnodup⟩
    simp only [ofOperation, hnone, definitions, symbols]
  · refine .inr ⟨i, symbol, ?_, hfirst⟩
    simp only [ofOperation, hsome, definitions, symbols]

lemma ofOperation_eq_ok_iff {op : Operation} {t : SymbolTable} :
    ofOperation op = .ok t ↔ ((symbolDefinitions op).map Prod.fst).Nodup ∧
      t.entries.entries = symbolDefinitions op := by
  rcases ofOperation_cases op with ⟨hnodup, t', ht', hentries⟩ | ⟨i, symbol, hsymbol, hleast, -⟩
  · rw [ht', Except.ok.injEq]
    constructor
    · rintro rfl
      exact ⟨hnodup, hentries⟩
    · rintro ⟨-, ht⟩
      have hsame : t'.entries = t.entries := OrderedMap.eq_of_entries (hentries.trans ht.symm)
      exact congrArg SymbolTable.mk hsame
  · rw [hsymbol]
    refine iff_of_false (by rintro ⟨⟩) fun h => ?_
    exact not_repeatsAt_of_nodup h.1 i hleast.1

lemma ofOperation_eq_error_iff {op : Operation} {symbol : String} :
    ofOperation op = .error symbol ↔
      ∃ i, IsLeast {i | RepeatsAt ((symbolDefinitions op).map Prod.fst) i} i ∧
        ((symbolDefinitions op).map Prod.fst)[i]? = some symbol := by
  rcases ofOperation_cases op with ⟨hnodup, t, ht, -⟩ | ⟨i, s, hs, hleast, hi⟩
  · rw [ht]
    refine iff_of_false (by rintro ⟨⟩) ?_
    rintro ⟨i, hleast, -⟩
    exact not_repeatsAt_of_nodup hnodup i hleast.1
  · rw [hs, Except.error.injEq]
    constructor
    · rintro rfl
      exact ⟨i, hleast, hi⟩
    · rintro ⟨j, hleast', hj⟩
      rw [hleast'.unique hleast, hi] at hj
      exact Option.some.inj hj

end SymbolTable

/-- **A program has a table of symbols exactly if no symbol is defined twice.** The table holds the
definitions in the order of the walk and gives for each symbol the one operation that defines it.
If there is none, the symbol is named that stands at the first place where a symbol is repeated.
To enter the definitions one by one comes to the same. -/
theorem symbolTable_exact (ε : Type) (op : Operation) :
    let definitions := symbolDefinitions op
    let symbols := definitions.map Prod.fst
    let result := (symbolTable ε).analyze op
    ((∃ t, result = .ok t) ↔ symbols.Nodup) ∧
      (∀ t, result = .ok t ↔ symbols.Nodup ∧ t.entries.entries = definitions ∧
        ∀ symbol name, t.lookup? symbol = some name ↔
          ∃ o, op.walk.filter (·.symbol? = some symbol) = [o] ∧ o.name = name) ∧
      (∀ e, result = .error e ↔ ∃ i symbol, IsLeast {i | RepeatsAt symbols i} i ∧
        symbols[i]? = some symbol ∧ e = .duplicateSymbol symbol) ∧
      result = (SymbolTable.Scan.ofOperation op).result.mapError .duplicateSymbol := by
  intro definitions symbols result
  have hok (t : SymbolTable) :
      result = .ok t ↔ symbols.Nodup ∧ t.entries.entries = definitions := by
    rw [← SymbolTable.ofOperation_eq_ok_iff]
    exact mapError_eq_ok_iff
  have hlookup (t : SymbolTable) (hnodup : symbols.Nodup) (ht : t.entries.entries = definitions)
      (symbol name : String) : t.lookup? symbol = some name ↔
        ∃ o, op.walk.filter (·.symbol? = some symbol) = [o] ∧ o.name = name := by
    rw [SymbolTable.lookup?, OrderedMap.get?_eq_some_iff, ht]
    exact SymbolTable.mem_symbolDefinitions_iff hnodup
  refine ⟨⟨fun ⟨t, ht⟩ => ((hok t).mp ht).1, fun h => ?_⟩, fun t => ?_, fun e => ?_, ?_⟩
  · exact ⟨⟨.ofList definitions⟩, (hok _).mpr ⟨h, OrderedMap.entries_ofList h⟩⟩
  · rw [hok]
    exact ⟨fun ⟨hnodup, ht⟩ => ⟨hnodup, ht, hlookup t hnodup ht⟩, fun h => ⟨h.1, h.2.1⟩⟩
  · refine mapError_eq_error_iff.trans ?_
    simp only [SymbolTable.ofOperation_eq_error_iff]
    constructor
    · rintro ⟨symbol, ⟨i, hleast, hi⟩, rfl⟩
      exact ⟨i, symbol, hleast, hi, rfl⟩
    · rintro ⟨i, symbol, hleast, hi, rfl⟩
      exact ⟨symbol, ⟨i, hleast, hi⟩, rfl⟩
  · rw [SymbolTable.Scan.result_ofOperation]
    rfl

end OpTree.Analysis
