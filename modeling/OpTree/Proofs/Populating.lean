import OpTree.Command.Execute
import OpTree.Proofs.Results

/-!
A pipeline is built as a whole or not at all. Its text is read to the end before the first pass is
built, and all passes are built before the first is added. So a pipeline in which anything is wrong
leaves the manager as it was, and a command that is given one ends before it runs a pass.
-/

namespace OpTree

open OpTree.Text

namespace Pipeline

/-! ### Registries -/

/-- The pass of an entry where passes were registered in this order, or why there is none: of the
registrations of a name the last one counts. -/
def build (ps : List Registration) (e : Entry) : Except Error Pass :=
  match ps.reverse.find? (·.name == e.name) with
  | none => .error (.unknownPass e.name)
  | some p => p.factory ⟨e.name, e.options⟩

namespace Registry

/-- The registry that is reached by registering passes one after the other. -/
def ofRegistrations (ps : List Registration) : Registry := ps.foldl register {}

lemma find?_register (r : Registry) (p : Registration) (name : String) :
    (r.register p).find? name = if p.name = name then some p else r.find? name := by
  have hother : (r.passes.filter (·.name != p.name)).find? (·.name == name) =
      if p.name = name then none else r.find? name := by
    rw [List.find?_filter]
    split
    · rename_i h
      simp [h]
    · rename_i h
      refine congrArg (List.find? · r.passes) (funext fun q => ?_)
      by_cases hq : q.name = name
      · simp [hq, Ne.symm h]
      · simp [hq]
  rw [find?, register, List.find?_append, hother]
  split
  · rename_i h
    simp [h]
  · rename_i h
    simp [h]

lemma find?_foldl_register (r : Registry) (ps : List Registration) (name : String) :
    (ps.foldl register r).find? name =
      (ps.reverse.find? (·.name == name)).or (r.find? name) := by
  induction ps generalizing r with
  | nil => rfl
  | cons p ps ih =>
    rw [List.foldl_cons, ih, find?_register, List.reverse_cons, List.find?_append, Option.or_assoc]
    by_cases h : p.name = name <;> simp [h]

lemma create_ofRegistrations (ps : List Registration) (e : Entry) :
    (ofRegistrations ps).create e = build ps e := by
  have hnone : ({} : Registry).find? e.name = none := rfl
  have hfind : (ofRegistrations ps).find? e.name = ps.reverse.find? (·.name == e.name) := by
    rw [ofRegistrations, find?_foldl_register, hnone, Option.or_none]
  cases h : ps.reverse.find? (·.name == e.name) <;> simp only [create, build, hfind, h]

/-- Adds the passes of a pipeline to a manager in place. What is done to the manager before an
error stays done. -/
def populateIn {ε : Type} (r : Registry) (text : String) :
    ExceptT Error (StateM (Manager ε)) Unit := do
  (← r.parsePipeline text).forM fun p => modify (·.add p)

lemma run_forM_add {ε : Type} (passes : List Pass) (m : Manager ε) :
    (passes.forM fun p => modify (·.add p) : ExceptT Error (StateM (Manager ε)) Unit).run m =
      (.ok (), m.addAll passes) := by
  induction passes generalizing m with
  | nil =>
    rw [Manager.addAll, List.append_nil]
    rfl
  | cons p passes ih =>
    have hadd : m.addAll (p :: passes) = (m.add p).addAll passes := by
      rw [Manager.addAll, Manager.addAll, Manager.add, List.append_assoc, List.singleton_append]
    rw [hadd, ← ih]
    rfl

lemma run_populateIn {ε : Type} (r : Registry) (text : String) (m : Manager ε) :
    (r.populateIn text).run m =
      match r.parsePipeline text with
      | .ok passes => (.ok (), m.addAll passes)
      | .error e => (.error e, m) := by
  rw [populateIn]
  cases r.parsePipeline text with
  | error e => rfl
  | ok passes => exact run_forM_add passes m

end Registry

/-! ### Texts -/

/-- The text is that of a pipeline: it is blank, or there is something between the commas, and
each piece can be read. -/
def IsPipeline (text : String) : Prop :=
  isBlankText text.toList = true ∨
    ∃ pieces, splitEntries text.toList = .ok pieces ∧
      ∀ p ∈ pieces, ∃ e, parseEntry (trim p) = .ok e

lemma parse_cases (text : String) :
    (IsPipeline text ∧ ∃ es, Entry.parse text = .ok es) ∨
      ¬ IsPipeline text ∧ ∃ c, Entry.parse text = .error (.malformed c) := by
  by_cases hblank : isBlankText text.toList = true
  · refine .inl ⟨.inl hblank, [], ?_⟩
    rw [Entry.parse, parseEntries, if_pos hblank]
    rfl
  · have hparse : Entry.parse text = (do
        let pieces ← splitEntries text.toList
        pieces.mapM fun p => parseEntry (trim p)).mapError .malformed := by
      rw [Entry.parse, parseEntries, if_neg hblank]
    cases hsplit : splitEntries text.toList with
    | error c =>
      refine .inr ⟨?_, c, by rw [hparse, hsplit]; rfl⟩
      rintro (h | ⟨pieces, h, -⟩)
      · exact hblank h
      · rw [hsplit] at h
        cases h
    | ok pieces =>
      have hread : Entry.parse text =
          (pieces.mapM fun p => parseEntry (trim p)).mapError .malformed := by
        rw [hparse, hsplit]
        rfl
      rcases mapM_cases (fun p => parseEntry (trim p)) pieces with
        ⟨es, hes, hall⟩ | ⟨before, p, after, c, hpieces, -, hp, hc⟩
      · have hall' : ∀ p ∈ pieces, ∃ e, parseEntry (trim p) = .ok e :=
          ((List.forall₂_and_left pieces es).mp (hall.imp fun p e h => ⟨⟨e, h⟩, h⟩)).1
        exact .inl ⟨.inr ⟨pieces, hsplit, hall'⟩, es, by rw [hread, hes]; rfl⟩
      · refine .inr ⟨?_, c, by rw [hread, hc]; rfl⟩
        rintro (h | ⟨pieces', h, hall⟩)
        · exact hblank h
        · obtain rfl : pieces = pieces' := Except.ok.inj (hsplit.symm.trans h)
          obtain ⟨e, he⟩ := hall p (by simp [hpieces])
          rw [hp] at he
          cases he

/-! ### Populating a manager -/

/-- What populating a manager may come to. -/
inductive Populated {ε : Type} (ps : List Registration) (m : Manager ε) (text : String) :
    Except Error Unit → Manager ε → Prop
  /-- There is a pass for each entry, and these are added in order. -/
  | built {es : List Entry} {passes : List Pass} (pipeline : IsPipeline text)
    (parsed : Entry.parse text = .ok es)
    (created : List.Forall₂ (fun e p => build ps e = .ok p) es passes) :
    Populated ps m text (.ok ()) { m with passes := m.passes ++ passes }
  /-- Whatever the entries are that can be read. -/
  | malformed {c : Malformed} (noPipeline : ¬ IsPipeline text)
    (unparsed : Entry.parse text = .error (.malformed c)) :
    Populated ps m text (.error (.malformed c)) m
  /-- The first entry without a pass tells why there is none. -/
  | rejected {before after : List Entry} {e : Entry} {cause : Error}
    (pipeline : IsPipeline text) (parsed : Entry.parse text = .ok (before ++ e :: after))
    (created : ∀ d ∈ before, ∃ p, build ps d = .ok p) (refused : build ps e = .error cause) :
    Populated ps m text (.error cause) m

/-- **A manager gets all passes of a pipeline or none.** -/
theorem populated_run {ε : Type} (ps : List Registration) (m : Manager ε) (text : String) :
    let r := ((Registry.ofRegistrations ps).populateIn text).run m
    Populated ps m text r.1 r.2 := by
  intro r
  have hcreate : (Registry.ofRegistrations ps).create = build ps :=
    funext (Registry.create_ofRegistrations ps)
  have hr : r = match (Registry.ofRegistrations ps).parsePipeline text with
      | .ok passes => (.ok (), m.addAll passes)
      | .error e => (.error e, m) := Registry.run_populateIn _ text m
  -- Only a text that is read to the end has entries from which passes are built.
  rcases parse_cases text with ⟨hpipeline, es, hes⟩ | ⟨hno, c, hc⟩
  · have hpasses : (Registry.ofRegistrations ps).parsePipeline text = es.mapM (build ps) := by
      rw [Registry.parsePipeline, hes, hcreate]
      rfl
    rw [hr, hpasses]
    rcases mapM_cases (build ps) es with
      ⟨passes, hbuilt, hall⟩ | ⟨before, e, after, cause, hsplit, hbefore, he, hcause⟩
    · rw [hbuilt]
      exact .built hpipeline hes hall
    · rw [hcause]
      exact .rejected hpipeline (hsplit ▸ hes) hbefore he
  · have hpasses : (Registry.ofRegistrations ps).parsePipeline text = .error (.malformed c) := by
      rw [Registry.parsePipeline, hc]
      rfl
    rw [hr, hpasses]
    exact .malformed hno hc

end Pipeline

open Pipeline Command

/-! ### The command that runs pipelines -/

lemma loadUnit_eq_ok {w w' : World} {input : String} {op : IR.Operation}
    (h : loadUnit w input = .ok (op, w')) :
    w' = w.note .info "loaded IR" [("input", .text input), ("operations", .count op.count)] := by
  rw [loadUnit] at h
  split at h
  · cases h
  · split at h
    · cases h
    · cases h
      rfl

lemma Pipeline.Registry.populate_eq_error {ε : Type} {r : Registry} {m : Manager ε} {text : String}
    {cause : Error} :
    r.populate m text = .error cause ↔ r.parsePipeline text = .error cause := by
  rw [populate]
  cases r.parsePipeline text <;> simp

/-- **A bad pipeline has no effect.** However a registry was made, a manager gets a pass for each
entry of a pipeline, in order, or is left as it was: a text that cannot be read is reported before
anything that is wrong with an entry, and the first of these before the others. The command that
is given such a text ends with an error when it has loaded its program; it runs no pass, and leaves
all files and the output as they were. -/
theorem bad_pipeline_has_no_effect {ε : Type} (ps : List Registration) (m : Manager ε)
    (text : String) :
    (let registry := Registry.ofRegistrations ps
      let r := (registry.populateIn text).run m
      Populated ps m text r.1 r.2 ∧ registry.populate m text = r.1.map fun _ => r.2) ∧
    ∀ cause, Registry.builtin.populate m text = .error cause →
      ∀ (time : ℕ → String) (args : List String) (i : Invocation) (input : String)
        (continueOnFailure stats : Bool) (op : IR.Operation) (w w' : World),
        Invocation.ofArguments args = .ok i →
        i.action = .run input text continueOnFailure stats →
        loadUnit w input = .ok (op, w') →
        execute time args w = {
          exit := 1
          world := { w with
            log := w.log ++ [⟨.info, "loaded IR", [("input", .text input),
              ("operations", .count op.count)], w.diagnostics.written.length⟩]
            diagnostics := (w.diagnostics.write (bytesOf (errorText [cause.message]))).1 } } := by
  refine ⟨⟨populated_run ps m text, ?_⟩, ?_⟩
  · rw [Registry.run_populateIn, Registry.populate]
    cases (Registry.ofRegistrations ps).parsePipeline text <;> rfl
  · intro cause hcause time args i input continueOnFailure stats op w w' hargs haction hload
    have hpopulate (m' : Manager Empty) : Registry.builtin.populate m' text = .error cause :=
      Registry.populate_eq_error.mpr (Registry.populate_eq_error.mp hcause)
    have hexecute : execute time args w =
        runPipeline time text continueOnFailure stats op w' := by
      rw [execute, hargs]
      dsimp only
      rw [haction, Action.execute, withUnit, hload]
    have hrun : runPipeline time text continueOnFailure stats op w' =
        failing [cause.message] w' := by
      rw [runPipeline]
      dsimp only
      rw [hpopulate]
    rw [hexecute, hrun, loadUnit_eq_ok hload]
    rfl

/-- A pipeline with a pass that is unknown, a file to dump to, and at last a name that is none. -/
def lateFault : String := "gone,print-ir\x7bfile-name=out\x7d,a b"

/-- The last entry of the pipeline is reported, and there is no file but the one that was read. -/
theorem bad_pipeline_has_no_effect_late :
    let w : World := { files := ({} : World.FileTree).withFile ["in"] (bytesOf "[\"a\"]") }
    let o := execute (fun _ => "") ["run", "in", "--pass-pipeline", lateFault] w
    Registry.builtin.populate ({} : Manager Empty) lateFault =
        .error (.malformed (.invalidName "a b")) ∧
      o.exit = 1 ∧ o.world.files = w.files ∧ o.world.log.length = 1 := by
  intro w o
  have hparse : Entry.parse lateFault = .error (.malformed (.invalidName "a b")) := by
    decide +kernel
  have hpopulate : Registry.builtin.populate ({} : Manager Empty) lateFault =
      .error (.malformed (.invalidName "a b")) := by
    rw [Registry.populate_eq_error, Registry.parsePipeline, hparse]
    rfl
  have hread : w.files.readText "in" = .ok "[\"a\"]" := by decide +kernel
  have hok : (IR.Operation.load "[\"a\"]").isOk = true := by decide +kernel
  obtain ⟨op, hop⟩ : ∃ op, IR.Operation.load "[\"a\"]" = .ok op := by
    cases h : IR.Operation.load "[\"a\"]" with
    | ok op => exact ⟨op, rfl⟩
    | error f =>
      rw [h] at hok
      cases hok
  obtain ⟨w', hload⟩ : ∃ w', loadUnit w "in" = .ok (op, w') := by
    rw [loadUnit, hread]
    dsimp only
    rw [hop]
    exact ⟨_, rfl⟩
  have hargs : Invocation.ofArguments ["run", "in", "--pass-pipeline", lateFault] =
      .ok ⟨.run "in" lateFault false false, .warn⟩ := by
    rfl
  have hexecute := (bad_pipeline_has_no_effect [] ({} : Manager Empty) lateFault).2 _ hpopulate
    (fun _ => "") _ _ "in" false false op w w' hargs rfl hload
  refine ⟨hpopulate, ?_, ?_, ?_⟩ <;> simp only [o, hexecute]
  rfl

end OpTree
