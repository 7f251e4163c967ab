import OpTree.Analysis.Basic
import OpTree.Pass.StripDebugInfo
import OpTree.Proofs.Tree

/-!
The content of a program is everything in it but the locations. Counts and symbols are functions
of the content.
-/

namespace OpTree

open OpTree.IR OpTree.Analysis

namespace IR.Operation

/-- The programs differ at most in locations. -/
def SameContent (a b : Operation) : Prop := a.stripped = b.stripped

@[simp] lemma stripped_name (op : Operation) : op.stripped.name = op.name := by
  rw [stripped, mapWalk]

@[simp] lemma stripped_attributes (op : Operation) : op.stripped.attributes = op.attributes := by
  rw [stripped, mapWalk]

@[simp] lemma stripped_symbol? (op : Operation) : op.stripped.symbol? = op.symbol? := by
  simp [symbol?, attribute?]

lemma walk_stripped (op : Operation) : op.stripped.walk = op.walk.map stripped :=
  walk_mapWalk _ op

end IR.Operation

namespace Analysis

/-- The analysis sees nothing of a program but its content. -/
def OfContent {ε ρ : Type} (a : Analysis ε ρ) : Prop :=
  ∀ op : Operation, a.analyze op.stripped = a.analyze op

lemma OfContent.analyze_eq {ε ρ : Type} {a : Analysis ε ρ} (ha : a.OfContent) {x y : Operation}
    (h : x.SameContent y) : a.analyze x = a.analyze y := by
  rw [← ha x, h, ha y]

lemma counts_stripped (op : Operation) : Counts.ofOperation op.stripped = .ofOperation op := by
  simp only [Counts.ofOperation, Operation.walk_stripped, List.foldl_map, Operation.stripped_name]

lemma symbolDefinitions_stripped (op : Operation) :
    symbolDefinitions op.stripped = symbolDefinitions op := by
  simp only [symbolDefinitions, Operation.walk_stripped, List.filterMap_map, Function.comp_def,
    Operation.stripped_symbol?, Operation.stripped_name]

theorem operationCount_ofContent (ε : Type) : (operationCount ε).OfContent := fun op =>
  congrArg Except.ok (counts_stripped op)

theorem symbolTable_ofContent (ε : Type) : (symbolTable ε).OfContent := fun op => by
  simp only [symbolTable, SymbolTable.ofOperation, symbolDefinitions_stripped]

end Analysis

end OpTree
