import OpTree.Proofs.Content
import OpTree.Proofs.Turns

/-!
Pipelines of the built-in passes: the program that each of them is given, the dumps that such a
pipeline makes, and what one pass does to its surroundings.
-/

namespace OpTree

open OpTree.IR OpTree.World

lemma Text.bytesOf_append (s t : String) : bytesOf (s ++ t) = bytesOf s ++ bytesOf t := by
  unfold bytesOf
  rw [String.toList_append, List.flatMap_append]

lemma Text.bytesOf_join (l : List String) :
    bytesOf (String.join l) = (l.map bytesOf).flatten := by
  unfold bytesOf
  rw [String.toList_join, List.flatMap_assoc, ← List.flatMap_def]

/-! ### Locations are stripped for good -/

namespace IR.Operation

lemma stripped_eq (op : Operation) : op.stripped =
    { op with
      location := .unknown
      regions := op.regions.map fun r =>
        { blocks := r.blocks.map fun b =>
            { b with operations := b.operations.map stripped } } } := by
  rw [stripped, mapWalk]
  rfl

lemma stripped_stripped (op : Operation) : op.stripped.stripped = op.stripped := by
  induction op using nested_induction with
  | nest op ih =>
    rw [stripped_eq op.stripped, stripped_eq op]
    simp only [List.map_map, Function.comp_def, mk.injEq, true_and, and_true]
    refine List.map_congr_left fun r hr => congrArg Region.mk (List.map_congr_left fun b hb => ?_)
    exact congrArg (Block.mk b.arguments) (List.map_congr_left (ih r hr b hb))

end IR.Operation

/-! ### What a turn leaves of its world -/

lemma World.flushDiagnostics_eq (w : World) (pass : String) :
    ∃ log, w.flushDiagnostics pass = { w with log } := by
  unfold flushDiagnostics
  split
  · exact ⟨w.log, rfl⟩
  · exact ⟨_, rfl⟩

lemma Turn.world_eq (t : Turn) : ∃ log, t.world = { t.outcome.state.world with log } := by
  obtain ⟨log, hflush⟩ := t.outcome.state.world.flushDiagnostics_eq t.pass.name
  unfold world Pass.noteOutcome
  rw [hflush]
  split <;> exact ⟨_, rfl⟩

lemma getLast?_turn_cons {α : Type} (g : Turn → α) (t : Turn) (ts : List Turn) (a : α) :
    ((t :: ts).getLast?.map g).getD a = (ts.getLast?.map g).getD (g t) := by
  rw [List.getLast?_cons]
  cases ts.getLast? <;> rfl

/-! ### Stages and their dumps -/

/-- A built-in pass with its settings. Dumps are in the text form. -/
inductive Stage
  | dump (options : Print.DumpOptions) (flags : Print.Flags)
  | strip

structure Dump where
  /-- The file that it goes to; without one it goes to the diagnostics. -/
  destination? : Option String
  text : String

namespace Dump

def bytes (d : Dump) : List UInt8 := Text.bytesOf d.text

/-- What of some dumps goes to the diagnostics. -/
def told (ds : List Dump) : List UInt8 := (ds.filter (·.destination?.isNone)).flatMap bytes

@[simp] lemma told_nil : told [] = [] := rfl

lemma told_append (ds ds' : List Dump) : told (ds ++ ds') = told ds ++ told ds' := by
  unfold told
  rw [List.filter_append, List.flatMap_append]

end Dump

namespace Stage

def pass : Stage → Pass
  | dump options flags => .printIr { options, flags }
  | strip => .stripDebugInfo

def destination? : Stage → Option String
  | dump options _ => options.destination?
  | strip => none

def isStrip : Stage → Bool
  | dump .. => false
  | strip => true

def unitAfter (ss : List Stage) (op : Operation) : Operation :=
  if ss.any isStrip then op.stripped else op

/-- The text of a dump: its header, and the program below it. -/
def dumpText (ansi : Bool) (label : String) (f : Print.Flags) (op : Operation) : String :=
  Print.dumpHeader label ++ "\n" ++ Print.text ansi f op

/-- The dump that a stage makes of the program that it is given. -/
def dump? (ansi : Bool) (op : Operation) : Stage → Option Dump
  | dump options f => some ⟨options.destination?, dumpText ansi options.label f op⟩
  | strip => none

/-- The dumps of a pipeline in order, each of the program behind the stages before it. -/
def dumps (ansi : Bool) (op : Operation) (ss : List Stage) : List Dump :=
  ss.zipIdx.filterMap fun p => p.1.dump? ansi (unitAfter (ss.take p.2) op)

lemma unitAfter_cons (s : Stage) (ss : List Stage) (op : Operation) :
    unitAfter (s :: ss) op = unitAfter ss (unitAfter [s] op) := by
  unfold unitAfter
  cases s with
  | dump => rfl
  | strip =>
    by_cases h : ss.any isStrip
    · rw [if_pos h]
      exact op.stripped_stripped.symm
    · rw [if_neg h]
      rfl

@[simp] lemma dumps_nil (ansi : Bool) (op : Operation) : dumps ansi op [] = [] := rfl

lemma dumps_cons (ansi : Bool) (op : Operation) (s : Stage) (ss : List Stage) :
    dumps ansi op (s :: ss) = (s.dump? ansi op).toList ++ dumps ansi (unitAfter [s] op) ss := by
  have hrest : (ss.zipIdx 1).filterMap
      (fun p => p.1.dump? ansi (unitAfter ((s :: ss).take p.2) op)) =
      dumps ansi (unitAfter [s] op) ss := by
    rw [List.zipIdx_succ, List.filterMap_map]
    refine List.filterMap_congr fun p _ => ?_
    simp only [Function.comp_apply, List.take_succ_cons, ← unitAfter_cons]
  have hfirst : s.dump? ansi (unitAfter ((s :: ss).take 0) op) = s.dump? ansi op := rfl
  rw [dumps, List.zipIdx_cons, List.filterMap_cons, hrest, hfirst]
  cases s.dump? ansi op <;> rfl

/-! ### One turn -/

lemma strip_turn (op : Operation) (w : World) :
    (∃ log, (strip.pass.turn op w).world = { w with log }) ∧
      (strip.pass.turn op w).outcome.cause? = none := by
  obtain ⟨log, hworld⟩ := (strip.pass.turn op w).world_eq
  exact ⟨⟨log, hworld⟩, rfl⟩

def dumpState (op : Operation) (w : World) : PassState :=
  PassState.preserveAll
    { world := w.note .debug "running pass" [("pass", .name "print-ir"), ("op", .text op.name)] }

lemma dump_outcome (options : Print.DumpOptions) (f : Print.Flags) (op : Operation) (w : World) :
    ((dump options f).pass.turn op w).outcome =
      match options.destination? with
      | none => dumpToDiagnostics { options, flags := f } op (dumpState op w)
      | some path => dumpToFile { options, flags := f } path op (dumpState op w) := rfl

lemma unit_turn (s : Stage) (op : Operation) (w : World) :
    (s.pass.turn op w).outcome.unit = unitAfter [s] op := by
  cases s with
  | strip => rfl
  | dump options f =>
    change _ = op
    rw [dump_outcome]
    split
    · rfl
    · unfold dumpToFile
      split <;> rfl

/-- **The program behind a pipeline** does not depend on where its dumps went. -/
theorem unit_turns (ss : List Stage) (op : Operation) (w : World) :
    ((turns (ss.map pass) op w).getLast?.map fun t => t.outcome.unit).getD op =
      unitAfter ss op := by
  induction ss generalizing op w with
  | nil => rfl
  | cons s ss ih =>
    rw [List.map_cons, turns, getLast?_turn_cons, unitAfter_cons, unit_turn]
    exact ih (unitAfter [s] op) _

end Stage

end OpTree
