import OpTree.Proofs.Places
import OpTree.Proofs.Streams

/-!
Dumps to files, and what a pipeline of built-in passes does as a whole. A dump makes no
directories, so it depends on no dump before it whether its file can be made.
-/

namespace OpTree

open OpTree.IR OpTree.World OpTree.Text

namespace World.FileTree

lemma receive_opened (t : FileTree) {p : Place} (hp : p ≠ []) {r : Print.Rendering}
    (hr : r.ending = .flush) :
    (t.put p (.file [])).receive p r = (t.withContent p (bytesOf r.text), none) := by
  have hnode : (t.put p (.file [])).node? p = some (.file []) := by
    rw [node?_put _ hp, if_pos rfl]
  have hroom : (t.put p (.file [])).isFull p = false := by
    rw [isFull, hnode]
    rfl
  have hfill : (t.put p (.file [])).fill p (bytesOf r.text) = t.withContent p (bytesOf r.text) := by
    unfold fill
    rw [hnode]
    rfl
  unfold receive
  simp only [hfill, hroom, hr, Bool.false_and]
  rfl

end World.FileTree

namespace Stage

open World.FileTree

/-! ### A stage on files -/

lemma dump_file_turn {options : Print.DumpOptions} {f : Print.Flags} {path : String}
    (hd : options.destination? = some path) (op : Operation) {w : World} {p : Place}
    (htarget : w.files.target path = .ok p) (hp : w.files.Regular p) :
    (∃ log, ((dump options f).pass.turn op w).world =
        { w with
          files := w.files.withContent p (bytesOf (dumpText w.ansi options.label f op)), log }) ∧
      ((dump options f).pass.turn op w).outcome.cause? = none := by
  let d : DumpSettings := { options, flags := f }
  have hreceive (log : List Event) :
      { w with files := w.files.put p (.file []), log }.receive p (d.rendering w.ansi op) =
        ({ w with
            files := w.files.withContent p (bytesOf (dumpText w.ansi options.label f op)), log },
          none) := by
    have hne := target_ne_nil htarget
    have hnode : (w.files.put p (.file [])).node? p = some (.file []) := by
      rw [node?_put _ hne, if_pos rfl]
    unfold World.receive
    simp only [hnode]
    rw [receive_opened _ hne rfl, rendering_text]
  obtain ⟨log, hworld⟩ := ((dump options f).pass.turn op w).world_eq
  rw [hworld, dump_outcome, hd]
  dsimp only [dumpToFile, dumpState, PassState.preserveAll, PassState.note, World.note]
  rw [create_eq_ok htarget hp]
  dsimp only
  rw [hreceive]
  exact ⟨⟨log, rfl⟩, rfl⟩

lemma dump_refused_turn {options : Print.DumpOptions} {f : Print.Flags} {path : String}
    (hd : options.destination? = some path) (op : Operation) {w : World} {e : FileError}
    (htarget : w.files.target path = .error e) :
    (∃ log, ((dump options f).pass.turn op w).world = { w with log }) ∧
      ((dump options f).pass.turn op w).outcome.cause? =
        some (.destinationUnavailable path e) := by
  obtain ⟨log, hworld⟩ := ((dump options f).pass.turn op w).world_eq
  rw [hworld, dump_outcome, hd]
  dsimp only [dumpToFile, dumpState, PassState.preserveAll, PassState.note, World.note]
  rw [create_eq_error htarget]
  exact ⟨⟨log, rfl⟩, rfl⟩

/-! ### What dumps leave behind -/

/-- The files that some dumps go to, in order, as far as they can be made. -/
def filed (t : FileTree) (ds : List Dump) : List (Place × List UInt8) :=
  ds.filterMap fun d => d.destination?.bind fun path =>
    (t.target path).toOption.map fun p => (p, d.bytes)

/-- What the last of some dumps to a place puts there. -/
def lastFiled (t : FileTree) (ds : List Dump) (p : Place) : Option (List UInt8) :=
  (filed t ds).reverse.lookup p

/-- Where the files of some dumps go, nothing stands but regular files. -/
def Admits (t : FileTree) (ds : List Dump) : Prop :=
  ∀ d ∈ ds, ∀ path ∈ d.destination?, ∀ p, t.target path = .ok p → t.Regular p

structure Leaves (ds : List Dump) (w w' : World) : Prop where
  ansi : w'.ansi = w.ansi
  output : w'.output = w.output
  diagnostics : w'.diagnostics = Sink.offered none (w.diagnostics.written ++ Dump.told ds)
  home : w'.files.home = w.files.home
  files : ∀ p, w'.files.node? p =
    ((lastFiled w.files ds p).map Node.file).or (w.files.node? p)

lemma filed_append (t : FileTree) (ds ds' : List Dump) :
    filed t (ds ++ ds') = filed t ds ++ filed t ds' := List.filterMap_append

lemma lastFiled_append (t : FileTree) (ds ds' : List Dump) (p : Place) :
    lastFiled t (ds ++ ds') p = (lastFiled t ds' p).or (lastFiled t ds p) := by
  unfold lastFiled
  rw [filed_append, List.reverse_append, List.lookup_append]

lemma toOption_target_congr {t t' : FileTree} (h : SameDirectories t t') (path : String) :
    (t'.target path).toOption = (t.target path).toOption := by
  have hsome (e : Except FileError Place) (p : Place) : e.toOption = some p ↔ e = .ok p := by
    cases e <;> simp [Except.toOption]
  rw [Option.ext_iff]
  intro p
  rw [hsome, hsome, h.target_eq_ok]

lemma filed_congr {t t' : FileTree} (h : SameDirectories t t') (ds : List Dump) :
    filed t' ds = filed t ds := by
  unfold filed
  simp only [toOption_target_congr h]

lemma regular_of_lastFiled {t : FileTree} {ds : List Dump} (h : Admits t ds) {p : Place}
    {bs : List UInt8} (hp : lastFiled t ds p = some bs) : t.Regular p := by
  have hmem : (p, bs) ∈ filed t ds := by
    obtain ⟨l, l', hl, -⟩ := List.lookup_eq_some_iff.mp hp
    rw [← List.mem_reverse, hl]
    simp
  simp only [filed, List.mem_filterMap, Option.bind_eq_some_iff, Option.map_eq_some_iff,
    Prod.mk.injEq] at hmem
  obtain ⟨d, hd, path, hpath, q, hq, rfl, -⟩ := hmem
  have htarget : t.target path = .ok q := by
    cases htarget : t.target path with
    | error e => rw [htarget] at hq; cases hq
    | ok q' => rw [htarget] at hq; rw [Option.some.inj hq]
  exact h d hd path hpath q htarget

namespace Leaves

variable {ds ds' : List Dump} {w w' w'' : World}

lemma sameDirectories (h : Leaves ds w w') (hds : Admits w.files ds) :
    SameDirectories w.files w'.files := by
  refine ⟨h.home, fun p => ?_⟩
  rw [h.files]
  cases hp : lastFiled w.files ds p with
  | none => rfl
  | some bs =>
    have hregular := regular_of_lastFiled hds hp
    refine iff_of_false (by simp) fun hdirectory => ?_
    obtain ⟨bs, hbs⟩ := hregular _ hdirectory
    cases hbs

lemma regular (h : Leaves ds w w') {p : Place} (hp : w.files.Regular p) :
    w'.files.Regular p := by
  intro n hn
  rw [h.files] at hn
  cases hlast : lastFiled w.files ds p with
  | none =>
    rw [hlast] at hn
    exact hp n hn
  | some bs =>
    rw [hlast] at hn
    exact ⟨bs, (Option.some.inj hn).symm⟩

/-- Dumps upon dumps. -/
theorem trans (h : Leaves ds w w') (hds : Admits w.files ds) (h' : Leaves ds' w' w'') :
    Leaves (ds ++ ds') w w'' where
  ansi := h'.ansi.trans h.ansi
  output := h'.output.trans h.output
  diagnostics := by
    rw [h'.diagnostics, h.diagnostics, Dump.told_append, ← List.append_assoc]
    rfl
  home := h'.home.trans h.home
  files p := by
    have hsame := h.sameDirectories hds
    have hlast : lastFiled w'.files ds' p = lastFiled w.files ds' p := by
      unfold lastFiled
      rw [filed_congr hsame]
    rw [h'.files, h.files, lastFiled_append, hlast]
    cases lastFiled w.files ds' p <;> rfl

end Leaves

/-- The path of a stage whose file cannot be made. -/
def refused? (t : FileTree) (s : Stage) : Option String :=
  s.destination?.filter fun path => (t.target path).toOption.isNone

/-- A turn failed because of this path; without one it did not fail. -/
def FailsFor (t : Turn) : Option String → Prop
  | none => t.failure? = none
  | some path => ∃ e, t.failure? = some ⟨"print-ir", .destinationUnavailable path e⟩

section

variable {w : World} (hw : w.diagnostics = .offered none w.diagnostics.written) (log : List Event)

include hw

lemma leaves_nil : Leaves [] w { w with log } where
  ansi := rfl
  output := rfl
  diagnostics := by
    rw [Dump.told_nil, List.append_nil]
    exact hw
  home := rfl
  files _ := rfl

omit hw in
lemma leaves_told {d : Dump} (hd : d.destination? = none) :
    Leaves [d] w
      { w with diagnostics := .offered none (w.diagnostics.written ++ d.bytes), log } where
  ansi := rfl
  output := rfl
  diagnostics := by simp [Dump.told, hd]
  home := rfl
  files p := by simp [lastFiled, filed, hd]

lemma leaves_refused {d : Dump} {path : String} (hd : d.destination? = some path) {e : FileError}
    (htarget : w.files.target path = .error e) : Leaves [d] w { w with log } where
  ansi := rfl
  output := rfl
  diagnostics := by simpa [Dump.told, hd] using hw
  home := rfl
  files p := by simp [lastFiled, filed, hd, htarget, Except.toOption]

lemma leaves_filed {d : Dump} {path : String} (hd : d.destination? = some path) {p : Place}
    (htarget : w.files.target path = .ok p) :
    Leaves [d] w { w with files := w.files.withContent p d.bytes, log } where
  ansi := rfl
  output := rfl
  diagnostics := by simpa [Dump.told, hd] using hw
  home := home_withContent ..
  files q := by
    have hfiled : filed w.files [d] = [(p, d.bytes)] := by
      simp [filed, hd, htarget, Except.toOption]
    rw [node?_withContent _ (target_ne_nil htarget), lastFiled, hfiled, List.reverse_singleton,
      List.lookup_cons]
    by_cases hq : q = p
    · simp [hq]
    · have hne : (q == p) = false := beq_eq_false_iff_ne.mpr hq
      rw [if_neg hq, hne]
      rfl

end

lemma failsFor_none {t : Turn} (h : t.outcome.cause? = none) : FailsFor t none := by
  change Option.map _ _ = none
  rw [h]
  rfl

/-- **What one stage does.** Its dump, if it makes one, is added to the world, and it fails exactly
if the file for it cannot be made. -/
theorem leaves_turn (s : Stage) (op : Operation) {w : World}
    (hw : w.diagnostics = .offered none w.diagnostics.written)
    (hfiles : Admits w.files (s.dump? w.ansi op).toList) :
    Leaves (s.dump? w.ansi op).toList w (s.pass.turn op w).world ∧
      FailsFor (s.pass.turn op w) (s.refused? w.files) := by
  cases s with
  | strip =>
    obtain ⟨⟨log, hworld⟩, hcause⟩ := strip_turn op w
    rw [hworld]
    exact ⟨leaves_nil hw log, failsFor_none hcause⟩
  | dump options f =>
    have hrefused : (dump options f).refused? w.files =
        options.destination?.filter fun path => (w.files.target path).toOption.isNone := rfl
    rw [hrefused]
    cases hd : options.destination? with
    | none =>
      obtain ⟨⟨log, hworld⟩, hcause⟩ := dump_stream_turn (f := f) hd op hw
      rw [hworld]
      exact ⟨leaves_told log hd, failsFor_none hcause⟩
    | some path =>
      cases htarget : w.files.target path with
      | error e =>
        have hpath : (some path).filter (fun path => (w.files.target path).toOption.isNone) =
            some path := by
          simp [htarget, Except.toOption]
        obtain ⟨⟨log, hworld⟩, hcause⟩ := dump_refused_turn (f := f) hd op htarget
        rw [hworld, hpath]
        refine ⟨leaves_refused hw log hd htarget, e, ?_⟩
        rw [Turn.failure?, hcause]
        rfl
      | ok p =>
        have hpath : (some path).filter (fun path => (w.files.target path).toOption.isNone) =
            none := by
          simp [Option.filter, htarget, Except.toOption]
        have hregular : w.files.Regular p :=
          hfiles _ (List.mem_singleton_self _) path hd p htarget
        obtain ⟨⟨log, hworld⟩, hcause⟩ := dump_file_turn (f := f) hd op htarget hregular
        rw [hworld, hpath]
        exact ⟨leaves_filed hw log hd htarget, failsFor_none hcause⟩

/-- **What all stages do.** -/
theorem leaves_turns (ss : List Stage) (op : Operation) {w : World}
    (hw : w.diagnostics = .offered none w.diagnostics.written)
    (hfiles : Admits w.files (dumps w.ansi op ss)) :
    Leaves (dumps w.ansi op ss) w
        (((turns (ss.map pass) op w).getLast?.map Turn.world).getD w) ∧
      List.Forall₂ (fun s t => FailsFor t (s.refused? w.files)) ss (turns (ss.map pass) op w) := by
  induction ss generalizing op w with
  | nil => exact ⟨leaves_nil hw w.log, .nil⟩
  | cons s ss ih =>
    rw [dumps_cons] at hfiles ⊢
    have hfirst : Admits w.files (s.dump? w.ansi op).toList := fun d hd =>
      hfiles d (List.mem_append_left _ hd)
    obtain ⟨hleaves, hfails⟩ := leaves_turn s op hw hfirst
    have hsame := hleaves.sameDirectories hfirst
    have hrest : Admits (s.pass.turn op w).world.files
        (dumps (s.pass.turn op w).world.ansi (unitAfter [s] op) ss) := by
      intro d hd path hpath p htarget
      rw [hleaves.ansi] at hd
      exact hleaves.regular (hfiles d (List.mem_append_right _ hd) path hpath p
        (hsame.target_eq_ok.mp htarget))
    -- the stages behind see other files but the same directories, so their paths lead to the same
    -- places as at the beginning
    obtain ⟨hleaves', hfails'⟩ := ih (unitAfter [s] op) (by rw [hleaves.diagnostics]; rfl) hrest
    have hrefused (s' : Stage) :
        s'.refused? (s.pass.turn op w).world.files = s'.refused? w.files := by
      unfold refused?
      simp only [toOption_target_congr hsame]
    simp only [hrefused] at hfails'
    rw [hleaves.ansi] at hleaves'
    rw [List.map_cons, turns, getLast?_turn_cons, unit_turn]
    exact ⟨hleaves.trans hfirst hleaves', .cons hfails hfails'⟩

end Stage

/-- **What a pipeline of built-in passes does.** On diagnostics that refuse nothing, and with paths
at which nothing but regular files stands, a run that goes on ends with the program of the last
stage. Its dumps, each of the program as it stood, are in the diagnostics in order, or in their
files, where the last one counts; nothing else changes. The dumps whose file cannot be made fail,
and they are reported in order. -/
theorem run_stages {ε : Type} (m : Manager ε) (ss : List Stage) (op : Operation) {w : World}
    (hcapacity : w.diagnostics.capacity = none) (hflush : w.diagnostics.flushFails = false)
    (hfiles : Stage.Admits w.files (Stage.dumps w.ansi op ss)) :
    let passes := ss.map Stage.pass
    let ts := turns passes op w
    let r := { m with passes, policy := .proceed }.run op w
    r.unit = Stage.unitAfter ss op ∧
      Stage.Leaves (Stage.dumps w.ansi op ss) w r.world ∧
      List.Forall₂ (fun s t => Stage.FailsFor t (s.refused? w.files)) ss ts ∧
      r.result = RunError.ofFailures (ts.filterMap Turn.failure?) := by
  intro passes ts r
  have hw : w.diagnostics = .offered none w.diagnostics.written := by
    obtain ⟨ansi, output, ⟨written, capacity, flushFails⟩, files, log⟩ := w
    simp only at hcapacity hflush
    rw [hcapacity, hflush]
    rfl
  obtain ⟨hleaves, hfails⟩ := Stage.leaves_turns ss op hw hfiles
  have hr : r = _ := Manager.run_eq { m with passes, policy := .proceed } op w
  rw [hr]
  exact ⟨Stage.unit_turns ss op w, hleaves, hfails, rfl⟩

/-- Dumps to a file before and after the locations are stripped, and one to a file in a directory
that is missing. -/
def rewriting : List Stage :=
  [ .dump { fileName := some "out" } { debugInfo := true }, .strip,
    .dump { fileName := some "gone/out" } {},
    .dump { fileName := some "out", label := "after" } { debugInfo := true } ]

lemma dumps_rewriting (op : Operation) :
    Stage.dumps true op rewriting =
      [ ⟨some "out", Stage.dumpText true "" { debugInfo := true } op⟩,
        ⟨some "gone/out", Stage.dumpText true "" {} op.stripped⟩,
        ⟨some "out", Stage.dumpText true "after" { debugInfo := true } op.stripped⟩ ] := rfl

/-- The file holds the second dump alone. -/
theorem run_stages_rewriting :
    let op : Operation := { name := "f", location := .name "here" }
    let w : World := {}
    let m : Manager Empty := {}
    let r := { m with passes := rewriting.map Stage.pass, policy := .proceed }.run op w
    w.diagnostics.capacity = none ∧ w.diagnostics.flushFails = false ∧
      Stage.Admits w.files (Stage.dumps w.ansi op rewriting) ∧ r.unit = op.stripped ∧
      r.world.files.node? ["out"] =
        some (.file (bytesOf (Stage.dumpText true "after" { debugInfo := true } op.stripped))) := by
  intro op w m r
  have hadmits : Stage.Admits w.files (Stage.dumps w.ansi op rewriting) :=
    fun _ _ _ _ _ htarget => FileTree.regular_empty (FileTree.target_ne_nil htarget)
  obtain ⟨hunit, hleaves, -, -⟩ := run_stages m rewriting op rfl rfl hadmits
  refine ⟨rfl, rfl, hadmits, hunit, (hleaves.files ["out"]).trans ?_⟩
  have hout : ({} : FileTree).target "out" = .ok ["out"] := by decide
  have hgone : ({} : FileTree).target "gone/out" = .error .notFound := by decide
  have hfiled : Stage.filed {} (Stage.dumps true op rewriting) =
      [ (["out"], bytesOf (Stage.dumpText true "" { debugInfo := true } op)),
        (["out"], bytesOf (Stage.dumpText true "after" { debugInfo := true } op.stripped)) ] := by
    simp [dumps_rewriting, Stage.filed, hout, hgone, Except.toOption, Dump.bytes]
  change ((Stage.lastFiled {} (Stage.dumps true op rewriting) ["out"]).map Node.file).or _ = _
  rw [Stage.lastFiled, hfiled]
  simp

end OpTree
