import OpTree.Command.Execute
import OpTree.Proofs.CommandLine
import OpTree.Proofs.Legible
import OpTree.Proofs.Numerals
import OpTree.Proofs.PipelineText

/-!
Two ways to ask for a dump on a command line: the command that dumps has a switch for each
setting, and the command that runs a pipeline has an option for each. Both build the same pass.
-/

namespace OpTree

open OpTree.Pipeline OpTree.Text

lemma Text.parseSize?_toString {n : ℕ} (hn : n < sizeLimit) : parseSize? (toString n) = some n := by
  have hdigits : (Nat.toDigits 10 n).all Char.isDigit = true :=
    List.all_eq_true.mpr isDigit_of_mem_toDigits
  have hplus : ∀ r, Nat.toDigits 10 n ≠ '+' :: r := by
    intro r hr
    have hmem : '+' ∈ Nat.toDigits 10 n := by
      rw [hr]
      exact .head _
    exact absurd (isDigit_of_mem_toDigits _ hmem) (by decide)
  unfold parseSize?
  rw [toList_toString_nat]
  dsimp only
  split
  · rename_i r hr
    exact absurd hr (hplus r)
  · rw [if_pos ⟨Nat.toDigits_ne_nil, hdigits, by rwa [digitsValue_toDigits]⟩, digitsValue_toDigits]

/-! ### Options that are taken in their order -/

namespace Pipeline

def givenOptions (l : List (String × Option String)) : List (String × String) :=
  l.filterMap fun o => o.2.map (Prod.mk o.1)

/-- The value of an option that is written without one. -/
def marked (b : Bool) : Option String := if b then some "true" else none

lemma fst_mem_of_givenOptions {l : List (String × Option String)} {e : String × String}
    (he : e ∈ givenOptions l) : e.1 ∈ l.map Prod.fst := by
  obtain ⟨o, ho, heq⟩ := List.mem_filterMap.mp he
  obtain ⟨v, -, rfl⟩ := Option.map_eq_some_iff.mp heq
  exact List.mem_map_of_mem ho

namespace PassOptions

variable {pass key : String} {l : List (String × Option String)} (hkey : key ∉ l.map Prod.fst)

include hkey

lemma take_givenOptions (v : Option String) :
    (⟨pass, givenOptions ((key, v) :: l)⟩ : PassOptions).take key =
      (v, ⟨pass, givenOptions l⟩) := by
  have hne : ∀ e ∈ givenOptions l, e.1 ≠ key := fun e he h =>
    hkey (h ▸ fst_mem_of_givenOptions he)
  have hnone : (givenOptions l).filter (·.1 == key) = [] :=
    List.filter_eq_nil_iff.mpr fun e he => by simpa using hne e he
  have hall : (givenOptions l).filter (·.1 != key) = givenOptions l :=
    List.filter_eq_self.mpr fun e he => by simpa using hne e he
  cases v with
  | none =>
    change take ⟨pass, givenOptions l⟩ key = _
    rw [take, hnone, hall]
    rfl
  | some v =>
    change take ⟨pass, (key, v) :: givenOptions l⟩ key = _
    rw [take, List.filter_cons_of_pos (by simp), List.filter_cons_of_neg (by simp), hnone, hall]
    rfl

lemma takeBool_givenOptions (b : Bool) :
    (⟨pass, givenOptions ((key, marked b) :: l)⟩ : PassOptions).takeBool key =
      (.ok (if b then some true else none), ⟨pass, givenOptions l⟩) := by
  rw [takeBool, takeAs, take_givenOptions hkey]
  cases b <;> rfl

lemma takeSize_givenOptions {n : Option ℕ} (hn : ∀ k ∈ n, k < sizeLimit) :
    (⟨pass, givenOptions ((key, n.map toString) :: l)⟩ : PassOptions).takeSize key =
      (.ok n, ⟨pass, givenOptions l⟩) := by
  rw [takeSize, takeAs, take_givenOptions hkey]
  cases n with
  | none => rfl
  | some k =>
    dsimp only [Option.map_some]
    rw [parseSize?_toString (hn k rfl)]

end PassOptions

end Pipeline

namespace Command

/-! ### Requests and their command lines -/

/-- A dump of the program in a file, with the settings that are asked for. -/
structure DumpRequest where
  input : String
  label : Option String := none
  output : Option String := none
  elideAbove : Option ℕ := none
  debugInfo : Bool := false
  valueUsers : Bool := false
  skipRegions : Bool := false

namespace DumpRequest

/-- The texts do not end a quotation, the path is not empty, and the limit is a size. -/
structure Writable (r : DumpRequest) : Prop where
  label_free : ∀ l ∈ r.label, '"' ∉ l.toList
  output_free : ∀ o ∈ r.output, '"' ∉ o.toList
  output_ne : ∀ o ∈ r.output, o ≠ ""
  elideAbove_lt : ∀ n ∈ r.elideAbove, n < sizeLimit

variable (r : DumpRequest)

def options : Print.DumpOptions := { fileName := r.output, label := r.label.getD "" }

def flags : Print.Flags where
  elideAbove := r.elideAbove
  debugInfo := r.debugInfo
  valueUsers := r.valueUsers
  skipRegions := r.skipRegions

def printSwitches : List String :=
  valueArguments "label" r.label ++ (valueArguments "output" r.output ++
    (valueArguments "elide-large-elements" (r.elideAbove.map toString) ++
      (toggleArguments "debug-info" r.debugInfo ++ (toggleArguments "value-users" r.valueUsers ++
        (toggleArguments "skip-regions" r.skipRegions ++ ["--", r.input])))))

def printArguments : List String := "print" :: r.printSwitches

/-- The options of the pass, as they are written. -/
def words : List String :=
  [ r.label.map fun l => "label=\"" ++ l ++ "\"",
    r.output.map fun o => "file-name=\"" ++ o ++ "\"",
    r.elideAbove.map fun n => "elide-elementsattrs-if-larger=" ++ toString n,
    if r.debugInfo then some "print-debuginfo" else none,
    if r.valueUsers then some "print-value-users" else none,
    if r.skipRegions then some "skip-regions" else none ].filterMap id

def pipeline : String := "print-ir\x7b" ++ " ".intercalate r.words ++ "\x7d"

def runArguments : List String := ["run", "--pass-pipeline=" ++ r.pipeline, "--", r.input]

/-! ### What the command lines ask for -/

def found : Found :=
  ((((((({} : Found).add "label" r.label).add "output" r.output).add "elide-large-elements"
    (r.elideAbove.map toString)).add "debug-info" (toggled r.debugInfo)).add "value-users"
      (toggled r.valueUsers)).add "skip-regions" (toggled r.skipRegions))

variable {r}

lemma read_printSwitches (h : r.Writable) :
    printGrammar.read r.printSwitches =
      if r.input = "" then .error .usage
      else .ok { r.found with positionals := [r.input] } := by
  have hlabel : printGrammar.Offers
      { name := "label", short := some 'l', effect := .value anyText } :=
    ⟨rfl, by decide, by decide⟩
  have houtput : printGrammar.Offers
      { name := "output", short := some 'o', effect := .value isPath } :=
    ⟨rfl, by decide, by decide⟩
  have helide : printGrammar.Offers
      { name := "elide-large-elements",
        effect := .value fun v => (Text.parseSize? v).isSome } :=
    ⟨rfl, by decide, by decide⟩
  have hdebug : printGrammar.Offers { name := "debug-info", effect := .toggle } :=
    ⟨rfl, by decide, by decide⟩
  have husers : printGrammar.Offers { name := "value-users", effect := .toggle } :=
    ⟨rfl, by decide, by decide⟩
  have hskip : printGrammar.Offers { name := "skip-regions", effect := .toggle } :=
    ⟨rfl, by decide, by decide⟩
  have hpath : ∀ a ∈ r.output, isPath a = true := by
    intro a ha
    simpa [isPath] using h.output_ne a ha
  have hsize : ∀ a ∈ r.elideAbove.map toString, (Text.parseSize? a).isSome = true := by
    intro a ha
    obtain ⟨n, hn, rfl⟩ := Option.mem_map.mp ha
    rw [parseSize?_toString (h.elideAbove_lt n hn)]
    rfl
  unfold Grammar.read printSwitches
  rw [Grammar.scan_valueArguments hlabel rfl rfl rfl (fun _ _ => rfl),
    Grammar.scan_valueArguments houtput (by simp [Found.has_empty]) rfl rfl hpath,
    Grammar.scan_valueArguments helide (by simp [Found.has_empty]) rfl rfl hsize,
    Grammar.scan_toggleArguments hdebug (by simp [Found.has_empty]) rfl rfl,
    Grammar.scan_toggleArguments husers (by simp [Found.has_empty]) rfl rfl,
    Grammar.scan_toggleArguments hskip (by simp [Found.has_empty]) rfl rfl,
    Grammar.scan_positional rfl rfl rfl]
  rfl

lemma ofPrint_found (h : r.Writable) :
    Action.ofPrint { r.found with positionals := [r.input] } =
      .ok (.print r.input r.options r.flags) := by
  have hvalue (key : String) :
      ({ r.found with positionals := [r.input] } : Found).value? key = r.found.value? key := rfl
  have hhas (key : String) :
      ({ r.found with positionals := [r.input] } : Found).has key = r.found.has key := rfl
  have helide : (r.elideAbove.map toString).bind parseSize? = r.elideAbove := by
    cases hn : r.elideAbove with
    | none => rfl
    | some n => exact parseSize?_toString (h.elideAbove_lt n hn)
  unfold Action.ofPrint
  simp only [hvalue, hhas]
  simp [found, Found.value?_empty, Found.has_empty, helide, options, flags]

lemma ofArguments_cons {name : String} (hname : topGrammar.subcommands.contains name = true)
    (rest : List String) : Invocation.ofArguments (name :: rest) = (do
      let (inner, action) ← readSubcommand name rest
      return ⟨action, levelOf { subcommand := some (name, rest) } inner⟩) := by
  have htop : topGrammar.read (name :: rest) = .ok { subcommand := some (name, rest) } := by
    rw [Grammar.read, Grammar.scan, if_pos hname]
  rw [Invocation.ofArguments, htop]
  rfl

lemma levelOf_quiet (inner : Found) (hlevel : inner.value? "log-level" = none)
    (hverbose : inner.has "verbose" = false) (subcommand : Option (String × List String)) :
    levelOf { subcommand } inner = .warn := by
  unfold levelOf
  rw [hlevel, hverbose]
  rfl

theorem ofArguments_printArguments (h : r.Writable) :
    Invocation.ofArguments r.printArguments =
      if r.input = "" then .error .usage
      else .ok ⟨.print r.input r.options r.flags, .warn⟩ := by
  have hread : readSubcommand "print" r.printSwitches = (do
      let f ← printGrammar.read r.printSwitches
      return (f, ← Action.ofPrint f)) := rfl
  rw [printArguments, ofArguments_cons (by decide), hread, read_printSwitches h]
  by_cases hinput : r.input = ""
  · rw [if_pos hinput, if_pos hinput]
    rfl
  · have hlevel : r.found.value? "log-level" = none := by simp [found, Found.value?_empty]
    have hverbose : r.found.has "verbose" = false := by simp [found, Found.has_empty]
    have hwarn := levelOf_quiet { r.found with positionals := [r.input] } hlevel hverbose
      (some ("print", r.printSwitches))
    rw [if_neg hinput, if_neg hinput]
    simp only [bind, Except.bind, ofPrint_found h, pure, Except.pure, hwarn]

theorem ofArguments_runArguments (r : DumpRequest) :
    Invocation.ofArguments r.runArguments =
      if r.input = "" then .error .usage
      else .ok ⟨.run r.input r.pipeline false false, .warn⟩ := by
  have hpipeline : runGrammar.Offers
      { name := "pass-pipeline", short := some 'p', effect := .value anyText } :=
    ⟨rfl, by decide, by decide⟩
  have hread : runGrammar.read ["--pass-pipeline=" ++ r.pipeline, "--", r.input] =
      if r.input = "" then .error .usage
      else .ok { ({} : Found).add "pass-pipeline" (some r.pipeline) with
        positionals := [r.input] } := by
    have hscan := Grammar.scan_valueArguments hpipeline (f := {}) rfl rfl rfl
      (v := some r.pipeline) (fun _ _ => rfl) ["--", r.input]
    rw [Grammar.scan_positional rfl rfl rfl] at hscan
    exact hscan
  have hsub : readSubcommand "run" ["--pass-pipeline=" ++ r.pipeline, "--", r.input] = (do
      let f ← runGrammar.read ["--pass-pipeline=" ++ r.pipeline, "--", r.input]
      return (f, ← Action.ofRun f)) := rfl
  rw [runArguments, ofArguments_cons (by decide), hsub, hread]
  by_cases hinput : r.input = ""
  · rw [if_pos hinput, if_pos hinput]
    rfl
  · rw [if_neg hinput, if_neg hinput]
    rfl

/-! ### The pipeline -/

def entryOptions (r : DumpRequest) : List (String × String) :=
  givenOptions
    [ ("label", r.label), ("file-name", r.output),
      ("elide-elementsattrs-if-larger", r.elideAbove.map toString),
      ("print-debuginfo", marked r.debugInfo), ("print-value-users", marked r.valueUsers),
      ("skip-regions", marked r.skipRegions) ]

lemma buildPrintIr_entryOptions (h : r.Writable) :
    buildPrintIr ⟨"print-ir", r.entryOptions⟩ =
      .ok (.printIr { options := r.options, flags := r.flags }) := by
  have hflag (b : Bool) : (if b then some true else none).getD false = b := by
    cases b <;> rfl
  unfold buildPrintIr entryOptions
  rw [PassOptions.take_givenOptions (by simp)]
  dsimp only
  rw [PassOptions.take_givenOptions (by simp)]
  dsimp only
  rw [PassOptions.takeSize_givenOptions (by simp) h.elideAbove_lt]
  dsimp only
  rw [PassOptions.takeBool_givenOptions (by simp)]
  dsimp only
  rw [PassOptions.takeBool_givenOptions (by simp)]
  dsimp only
  rw [PassOptions.takeBool_givenOptions (by simp)]
  simp only [bind, Except.bind, pure, Except.pure, hflag]
  rfl

lemma optionsText_flatMap {os : List (String × String)} {ts : List (List Char)}
    (h : List.Forall₂ OptionText os ts) :
    OptionsText os (ts.flatMap fun t => [' '] ++ t) := by
  induction h with
  | nil => exact .nil (by simp [Blanks])
  | @cons o t os ts ht hrest ih =>
    rw [List.flatMap_cons, List.append_assoc]
    refine .cons (fun c hc => ?_) ht ih fun hne => ?_
    · rw [List.mem_singleton.mp hc]
      decide
    · cases hrest with
      | nil => exact absurd rfl hne
      | cons => exact ⟨' ', rfl, by decide⟩

lemma optionsText_intercalate {os : List (String × String)} {ts : List (List Char)}
    (h : List.Forall₂ OptionText os ts) : OptionsText os ([' '].intercalate ts) := by
  cases h with
  | nil => exact .nil (by simp [Blanks])
  | @cons o t os ts ht hrest =>
    rw [intercalate_cons]
    refine .cons (b := []) (by simp [Blanks]) ht (optionsText_flatMap hrest) fun hne => ?_
    cases hrest with
    | nil => exact absurd rfl hne
    | cons => exact ⟨' ', rfl, by decide⟩

lemma forall₂_optionText_cons {key : String} {v word : Option String}
    {l : List (String × Option String)} {ws : List (Option String)}
    (hword : Option.Rel (fun v w => OptionText (key, v) w.toList) v word)
    (h : List.Forall₂ OptionText (givenOptions l) ((ws.filterMap id).map String.toList)) :
    List.Forall₂ OptionText (givenOptions ((key, v) :: l))
      (((word :: ws).filterMap id).map String.toList) := by
  cases hword with
  | none => exact h
  | some hword => exact .cons hword h

lemma optionText_quoted (key lead : String) (hlead : lead.toList = key.toList ++ ['=', '"'])
    (v : Option String) :
    Option.Rel (fun v w => OptionText (key, v) w.toList) v (v.map fun a => lead ++ a ++ "\"") := by
  cases v with
  | none => exact .none
  | some a =>
    refine .some ?_
    have htext : (lead ++ a ++ "\"").toList = key.toList ++ '=' :: '"' :: (a.toList ++ ['"']) := by
      rw [String.toList_append, String.toList_append, hlead]
      simp
    rw [htext]
    exact .quoted key a

lemma optionText_flag (key : String) (b : Bool) :
    Option.Rel (fun v w => OptionText (key, v) w.toList) (marked b)
      (if b then some key else none) := by
  cases b with
  | false => exact .none
  | true => exact .some (.flag key)

lemma digitChar_bare : ∀ k < 10, isBlank (Nat.digitChar k) = false ∧
    Nat.digitChar k ≠ '{' ∧ Nat.digitChar k ≠ '}' := by decide

lemma optionText_words (r : DumpRequest) :
    List.Forall₂ OptionText r.entryOptions (r.words.map String.toList) := by
  have helide : Option.Rel
      (fun v w => OptionText ("elide-elementsattrs-if-larger", v) w.toList)
      (r.elideAbove.map toString)
      (r.elideAbove.map fun n => "elide-elementsattrs-if-larger=" ++ toString n) := by
    cases r.elideAbove with
    | none => exact .none
    | some n =>
      refine .some ?_
      have hlead : "elide-elementsattrs-if-larger=".toList =
          "elide-elementsattrs-if-larger".toList ++ ['='] := by decide
      have htext : ("elide-elementsattrs-if-larger=" ++ toString n).toList =
          "elide-elementsattrs-if-larger".toList ++ '=' :: (toString n).toList := by
        rw [String.toList_append, hlead, List.append_assoc, List.singleton_append]
      rw [htext]
      refine .bare _ _ fun c hc => ?_
      rw [toList_toString_nat] at hc
      obtain ⟨k, hk, rfl⟩ := exists_digitChar_of_mem_toDigits (by norm_num) c hc
      exact digitChar_bare k hk
  unfold entryOptions words
  exact forall₂_optionText_cons (optionText_quoted "label" "label=\"" (by decide) r.label)
    (forall₂_optionText_cons (optionText_quoted "file-name" "file-name=\"" (by decide) r.output)
    (forall₂_optionText_cons helide
    (forall₂_optionText_cons (optionText_flag "print-debuginfo" r.debugInfo)
    (forall₂_optionText_cons (optionText_flag "print-value-users" r.valueUsers)
    (forall₂_optionText_cons (optionText_flag "skip-regions" r.skipRegions) .nil)))))

lemma writable_entryOptions (h : r.Writable) : ∀ o ∈ r.entryOptions, WritableOption o := by
  have hkeys : ∀ key ∈ ["label", "file-name", "elide-elementsattrs-if-larger", "print-debuginfo",
      "print-value-users", "skip-regions"],
      key ≠ "" ∧ ∀ c ∈ key.toList, isPlain c = true ∧ c ≠ '=' := by
    simp only [List.forall_mem_cons]
    refine ⟨?_, ?_, ?_, ?_, ?_, ?_, by simp⟩ <;>
      exact ⟨by decide, List.all_iff_forall_prop.mp (by decide)⟩
  have hmarked (b : Bool) : ∀ a ∈ marked b, '"' ∉ a.toList := by
    cases b <;> simp [marked]
  have hsize : ∀ a ∈ r.elideAbove.map toString, '"' ∉ a.toList := by
    intro a ha hquote
    obtain ⟨n, -, rfl⟩ := Option.mem_map.mp ha
    rw [toList_toString_nat] at hquote
    exact absurd (isDigit_of_mem_toDigits _ hquote) (by decide)
  intro o ho
  obtain ⟨hne, hplain⟩ := hkeys o.1 (fst_mem_of_givenOptions ho)
  refine ⟨hne, hplain, ?_⟩
  obtain ⟨p, hp, heq⟩ := List.mem_filterMap.mp ho
  obtain ⟨a, ha, rfl⟩ := Option.map_eq_some_iff.mp heq
  have hfree : ∀ p ∈ [("label", r.label), ("file-name", r.output),
      ("elide-elementsattrs-if-larger", r.elideAbove.map toString),
      ("print-debuginfo", marked r.debugInfo), ("print-value-users", marked r.valueUsers),
      ("skip-regions", marked r.skipRegions)], ∀ a ∈ p.2, '"' ∉ a.toList := by
    simp only [List.forall_mem_cons]
    exact ⟨h.label_free, h.output_free, hsize, hmarked _, hmarked _, hmarked _, by simp⟩
  exact hfree p hp a ha

theorem parsePipeline_pipeline (h : r.Writable) :
    Registry.builtin.parsePipeline r.pipeline =
      .ok [.printIr { options := r.options, flags := r.flags }] := by
  have hname : ∀ c ∈ "print-ir".toList, isPlain c = true ∧ c ≠ ',' :=
    List.all_iff_forall_prop.mp (by decide)
  have hne : "print-ir" ≠ "" := by decide
  have hentry : (⟨"print-ir", r.entryOptions⟩ : Entry).Writable :=
    ⟨hne, hname, writable_entryOptions h⟩
  have htext : PipelineText [⟨"print-ir", r.entryOptions⟩] r.pipeline.toList := by
    have hbraced := EntryText.braced (b := []) (g := []) (d := []) "print-ir" (by simp [Blanks])
      (by simp [Blanks]) (optionsText_intercalate (optionText_words r)) (by simp [Blanks])
    refine .single (cast (congrArg (EntryText _) ?_) hbraced)
    have hlead : "print-ir\x7b".toList = "print-ir".toList ++ ['{'] := by decide
    rw [pipeline, String.toList_append, String.toList_append, String.toList_intercalate, hlead]
    simp
  have hparse : Entry.parse r.pipeline = .ok [⟨"print-ir", r.entryOptions⟩] := by
    rw [Entry.parse, parseEntries_text htext (by simpa using hentry)]
    rfl
  have hcreate : Registry.builtin.create ⟨"print-ir", r.entryOptions⟩ =
      buildPrintIr ⟨"print-ir", r.entryOptions⟩ := rfl
  rw [Registry.parsePipeline, hparse]
  change List.mapM Registry.builtin.create [_] = _
  rw [List.mapM_cons, hcreate, buildPrintIr_entryOptions h]
  rfl

/-! ### Execution -/

lemma run_single {ε : Type} (policy : FailurePolicy) (p : Pass) (s : Progress ε) :
    Progress.run policy [p] s = s.advance p.name (p.execute s.unit s.world) := by
  simp only [Progress.run]
  split <;> rfl

lemma print_empty (w : World) : w.print "" = w := by
  have hnone : w.output.accepted (bytesOf "") = [] := by
    unfold World.Sink.accepted
    split <;> simp [bytesOf]
  unfold World.print World.Sink.write
  rw [hnone, List.append_nil]

/-- **The pipeline does what the command that dumps does**, also with a policy to go on. -/
theorem runPipeline_pipeline (h : r.Writable) (time : ℕ → String) (continueOnFailure : Bool)
    (op : IR.Operation) (w : World) :
    runPipeline time r.pipeline continueOnFailure false op w =
      printUnit r.options r.flags op w := by
  have hpopulate (m : Manager Empty) : Registry.builtin.populate m r.pipeline =
      .ok (m.addAll [.printIr { options := r.options, flags := r.flags }]) := by
    rw [Registry.populate, parsePipeline_pipeline h]
    rfl
  unfold runPipeline printUnit
  dsimp only
  rw [hpopulate]
  simp only [Manager.run, Manager.addAll, List.nil_append, run_single, Bool.false_eq_true, if_false,
    print_empty]

lemma execute_of_actions (h : r.Writable) (time : ℕ → String) (continueOnFailure : Bool)
    (w : World) :
    Action.execute time w (.run r.input r.pipeline continueOnFailure false) =
      Action.execute time w (.print r.input r.options r.flags) := by
  have hnext : runPipeline time r.pipeline continueOnFailure false =
      printUnit r.options r.flags :=
    funext fun op => funext fun w => runPipeline_pipeline h time continueOnFailure op w
  change withUnit r.input w (runPipeline time r.pipeline continueOnFailure false) = _
  rw [hnext]
  rfl

/-- **Two command lines for a dump.** Whatever arguments ask for the dump, and whatever arguments
ask for the pipeline, they leave the same exit code and the same world: the same texts on both
outputs and the same files. Such arguments are the ones with each setting by its name, which show
the log down to the same level. -/
theorem execute_dumpRequest (h : r.Writable) (time : ℕ → String) (w : World) :
    (∀ (args args' : List String) (i i' : Invocation) (continueOnFailure : Bool),
      Invocation.ofArguments args = .ok i → i.action = .print r.input r.options r.flags →
      Invocation.ofArguments args' = .ok i' →
      i'.action = .run r.input r.pipeline continueOnFailure false →
      execute time args w = execute time args' w) ∧
    execute time r.printArguments w = execute time r.runArguments w ∧
      shownLevel r.printArguments = shownLevel r.runArguments := by
  refine ⟨fun args args' i i' continueOnFailure hargs hi hargs' hi' => ?_, ?_, ?_⟩
  · unfold execute
    rw [hargs, hargs']
    dsimp only
    rw [hi, hi', execute_of_actions h]
  · unfold execute
    rw [ofArguments_printArguments h, ofArguments_runArguments]
    by_cases hinput : r.input = ""
    · rw [if_pos hinput, if_pos hinput]
    · rw [if_neg hinput, if_neg hinput]
      exact (execute_of_actions h time false w).symm
  · unfold shownLevel
    rw [ofArguments_printArguments h, ofArguments_runArguments]
    by_cases hinput : r.input = "" <;> simp [hinput]

/-- A request with blanks, commas, braces and equals signs in its texts. -/
def crowded : DumpRequest where
  input := "in"
  label := some "a, b\x7d =c"
  output := some "gone/\x7bout"
  elideAbove := some 10
  debugInfo := true
  skipRegions := true

example : crowded.pipeline = "print-ir\x7blabel=\"a, b\x7d =c\" file-name=\"gone/\x7bout\" " ++
    "elide-elementsattrs-if-larger=10 print-debuginfo skip-regions\x7d" := by
  decide +kernel

/-- The two command lines for this request, where the file holds a program. -/
theorem execute_dumpRequest_crowded :
    let w : World := { files := ({} : World.FileTree).withFile ["in"] (bytesOf "[\"a\"]") }
    crowded.Writable ∧
      execute (fun _ => "") crowded.printArguments w =
        execute (fun _ => "") crowded.runArguments w := by
  have hcrowded : crowded.Writable := by
    refine ⟨?_, ?_, ?_, ?_⟩ <;> simp [crowded, sizeLimit]
  intro w
  exact ⟨hcrowded, (execute_dumpRequest hcrowded (fun _ => "") w).2.1⟩

end DumpRequest

end Command

end OpTree
