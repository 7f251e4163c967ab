import OpTree.Proofs.CacheHistory
import OpTree.Proofs.Editing
import OpTree.Proofs.Stages
import Mathlib.Data.List.Forall2

/-!
Locations are seen nowhere but in the debug information of the text form. Programs that differ at
most in locations have the same fingerprint, the same counts and symbols, and the same lines. So
the pass that makes all locations unknown loses nothing else, and what was cached for a program or
for an operation in it is found again behind the pass.
-/

namespace OpTree

open OpTree.IR OpTree.Analysis

namespace IR

/-! ### Programs that differ at most in locations -/

mutual

/-- The operations differ at most in locations: theirs, and those of what is nested in them. -/
inductive Operation.Alike : Operation → Operation → Prop
  | intro {a b : Operation} (name : a.name = b.name) (operands : a.operands = b.operands)
    (results : a.results = b.results) (attributes : a.attributes = b.attributes)
    (regions : List.Forall₂ Region.Alike a.regions b.regions) : Operation.Alike a b

inductive Region.Alike : Region → Region → Prop
  | intro {r s : Region} (blocks : List.Forall₂ Block.Alike r.blocks s.blocks) : Region.Alike r s

inductive Block.Alike : Block → Block → Prop
  | intro {b c : Block} (arguments : b.arguments = c.arguments)
    (operations : List.Forall₂ Operation.Alike b.operations c.operations) : Block.Alike b c

end

lemma forall₂_iff_map_eq {α β : Type} {R : α → α → Prop} {f : α → β} {as bs : List α}
    (h : ∀ a ∈ as, ∀ b, R a b ↔ f a = f b) : List.Forall₂ R as bs ↔ as.map f = bs.map f := by
  induction as generalizing bs with
  | nil => cases bs <;> simp
  | cons a as ih =>
    cases bs with
    | nil => simp
    | cons b bs =>
      rw [List.forall₂_cons, List.map_cons, List.map_cons, List.cons.injEq, h a (.head _),
        ih fun a ha => h a (.tail _ ha)]

def Block.stripped (b : Block) : Block :=
  { b with operations := b.operations.map Operation.stripped }

def Region.stripped (r : Region) : Region := { blocks := r.blocks.map Block.stripped }

lemma Block.alike_iff {b c : Block}
    (h : ∀ o ∈ b.operations, ∀ p, o.Alike p ↔ o.stripped = p.stripped) :
    b.Alike c ↔ b.stripped = c.stripped := by
  rw [stripped, stripped, Block.mk.injEq, ← forall₂_iff_map_eq h]
  exact ⟨fun ⟨ha, ho⟩ => ⟨ha, ho⟩, fun ⟨ha, ho⟩ => ⟨ha, ho⟩⟩

lemma Region.alike_iff {r s : Region}
    (h : ∀ b ∈ r.blocks, ∀ c, b.Alike c ↔ b.stripped = c.stripped) :
    r.Alike s ↔ r.stripped = s.stripped := by
  rw [stripped, stripped, Region.mk.injEq, ← forall₂_iff_map_eq h]
  exact ⟨fun ⟨hb⟩ => hb, fun hb => ⟨hb⟩⟩

namespace Operation

@[simp] lemma stripped_operands (op : Operation) : op.stripped.operands = op.operands := by
  rw [stripped_eq]

@[simp] lemma stripped_results (op : Operation) : op.stripped.results = op.results := by
  rw [stripped_eq]

@[simp] lemma stripped_location (op : Operation) : op.stripped.location = .unknown := by
  rw [stripped_eq]

@[simp] lemma stripped_regions (op : Operation) :
    op.stripped.regions = op.regions.map Region.stripped := by
  rw [stripped_eq]
  rfl

/-- Programs differ at most in locations exactly if they are the same when these are unknown. -/
theorem alike_iff {a b : Operation} : a.Alike b ↔ a.SameContent b := by
  induction a using nested_induction generalizing b with
  | nest a ih =>
    have hregions : List.Forall₂ Region.Alike a.regions b.regions ↔
        a.regions.map Region.stripped = b.regions.map Region.stripped :=
      forall₂_iff_map_eq fun r hr _ => Region.alike_iff fun x hx _ =>
        Block.alike_iff fun o ho _ => ih r hr x hx o ho
    rw [SameContent, stripped_eq, stripped_eq, Operation.mk.injEq]
    constructor
    · rintro ⟨hname, hoperands, hresults, hattributes, h⟩
      exact ⟨hname, hoperands, hresults, hattributes, hregions.mp h, rfl⟩
    · rintro ⟨hname, hoperands, hresults, hattributes, h, -⟩
      exact ⟨hname, hoperands, hresults, hattributes, hregions.mpr h⟩

end Operation

end IR

open Operation

/-! ### What does not see locations -/

namespace Analysis

lemma operationBytes_stripped (op : Operation) :
    Fingerprint.operationBytes op.stripped = Fingerprint.operationBytes op := by
  induction op using nested_induction with
  | nest op ih =>
    rw [Fingerprint.operationBytes, Fingerprint.operationBytes]
    simp only [stripped_name, stripped_operands, stripped_results, stripped_attributes,
      stripped_regions, Region.stripped, Block.stripped, List.length_map, List.flatMap_map]
    congr 1
    refine List.flatMap_congr fun r hr => congrArg _ (List.flatMap_congr fun b hb => ?_)
    rw [List.flatMap_congr (ih r hr b hb)]

lemma fingerprint_stripped (op : Operation) : fingerprint op.stripped = fingerprint op := by
  rw [fingerprint, fingerprint, operationBytes_stripped]

end Analysis

namespace Print

lemma keepsValues_stripped : KeepsValues fun o => { o with location := .unknown } :=
  ⟨fun _ => rfl, fun _ => rfl, fun _ => rfl⟩

lemma Session.tail_stripped (s : Session) (hs : s.flags.debugInfo = false) (op : Operation) :
    s.tail op.stripped = s.tail op := by
  have hlocation (o : Operation) : s.locationText o = "" := by
    rw [locationText, hs, if_neg Bool.false_ne_true]
  have hattributes : attributesText s.flags op.stripped = attributesText s.flags op := by
    rw [attributesText, attributesText, stripped_attributes]
  have hsignature : signature op.stripped = signature op :=
    signature_mapWalk keepsValues_stripped op
  have husers : s.usersComment op.stripped = s.usersComment op :=
    s.usersComment_mapWalk keepsValues_stripped op
  simp only [tail, hlocation, husers, hattributes, hsignature]

/-- Without debug information the text form does not depend on locations. -/
theorem lines_stripped (ansi : Bool) {f : Flags} (hf : f.debugInfo = false) (op : Operation) :
    lines ansi f op.stripped = lines ansi f op := by
  have hsession : Session.ofOperation ansi f op.stripped = Session.ofOperation ansi f op :=
    Session.ofOperation_mapWalk keepsValues_stripped ansi f op
  rw [lines, lines, hsession]
  exact Session.lines_mapWalk keepsValues_stripped _ (Session.tail_stripped _ hf) 0 op

end Print

/-! ### Stripping -/

namespace IR.Operation

lemma location_of_mem_walk_stripped {op o : Operation} (ho : o ∈ op.stripped.walk) :
    o.location = .unknown := by
  rw [walk_stripped] at ho
  obtain ⟨p, -, rfl⟩ := List.mem_map.mp ho
  exact p.stripped_location

lemma stripped_eq_self {op : Operation} (h : ∀ o ∈ op.walk, o.location = .unknown) :
    op.stripped = op := by
  induction op using nested_induction with
  | nest op ih =>
    have hblock : ∀ r ∈ op.regions, ∀ b ∈ r.blocks, b.stripped = b := by
      intro r hr b hb
      have hoperations : ∀ o ∈ b.operations, o.stripped = o := fun o ho =>
        ih r hr b hb o ho fun p hp => h p (walk_subset hr hb ho hp)
      rw [Block.stripped, (List.map_congr_left hoperations).trans (List.map_id' _)]
      cases b
      rfl
    have hregion : ∀ r ∈ op.regions, r.stripped = r := by
      intro r hr
      rw [Region.stripped, (List.map_congr_left (hblock r hr)).trans (List.map_id' _)]
      cases r
      rfl
    have hlocation : op.location = .unknown := h op op.self_mem_walk
    calc op.stripped
        = { op with location := .unknown, regions := op.regions.map Region.stripped } :=
          op.stripped_eq
      _ = { op with location := .unknown } := by
          rw [(List.map_congr_left hregion).trans (List.map_id' _)]
      _ = op := by
          rw [← hlocation]
          cases op
          rfl

lemma at?_stripped (op : Operation) (path : List Hop) :
    op.stripped.at? path = (op.at? path).map stripped := by
  obtain ⟨t, ht⟩ := exists_at?_edit .stripping op path 0
  simpa only [edit_stripping] using ht

end IR.Operation

/-! ### Cached results -/

namespace Manager

variable {ε ρ : Type}

lemma getAnalysis_of_get? {m : Manager ε} {a : Analysis ε ρ} {op : Operation} {v : Stored ε}
    (h : m.cache.get? (.of a.id op) = some v) :
    m.getAnalysis a op = (m, (a.retrieve? v).elim (.error (.unusable a.id)) .ok) := by
  simp only [getAnalysis, Cache.analyze, h]

/-- The analyses that do not depend on locations. -/
def locationFree : List Id := [.operationCount, .symbolTable]

/-- What has to hold of a program and a cache behind the pass that makes locations unknown. -/
structure Strips (m : Manager ε) (u : Operation) (r : RunOutcome ε) : Prop where
  result : r.result = .ok ()
  alike : u.Alike r.unit
  unknown : ∀ o ∈ r.unit.walk, o.location = .unknown
  /-- No other program differs at most in locations and has none. -/
  unique : ∀ v, u.Alike v → (∀ o ∈ v.walk, o.location = .unknown) → v = r.unit
  again : ∀ (n : Manager ε) (w : World),
    ({ n with passes := [.stripDebugInfo] }.run r.unit w).unit = r.unit
  /-- What was cached for an operation is cached for the one in its place, and is found there. -/
  kept : ∀ path o, u.at? path = some o → ∃ o', r.unit.at? path = some o' ∧ o.Alike o' ∧
    ∀ i ∈ locationFree, r.manager.cache.get? (.of i o') = m.cache.get? (.of i o) ∧
      ∀ (ρ : Type) (a : Analysis ε ρ), a.id = i → m.isAnalysisValid o i = true →
        r.manager.getAnalysis a o' = (r.manager, (m.getAnalysis a o).2)
  dropped : ∀ e ∈ r.manager.cache.entries, ∀ name, e.1.id ≠ .custom name

lemma run_stripDebugInfo (m : Manager ε) (u : Operation) (w : World) :
    let r := { m with passes := [.stripDebugInfo] }.run u w
    r.unit = u.stripped ∧ r.result = .ok () ∧
      r.manager.cache = m.cache.retain { ids := locationFree } := by
  intro r
  let t := Pass.stripDebugInfo.turn u w
  have hturns : m.policy.taken (turns [.stripDebugInfo] u w) = [t] := by
    rw [turns, turns, FailurePolicy.taken_cons, FailurePolicy.taken_nil, ite_self]
  have hr : r = _ := run_eq { m with passes := [.stripDebugInfo] } u w
  rw [hr]
  dsimp only
  rw [hturns]
  refine ⟨rfl, ?_, rfl⟩
  rw [RunError.ofFailures_eq_ok, failure?_filterMap_eq_nil, List.forall_mem_singleton]
  exact (Stage.strip_turn u w).2

/-- **The pass makes all locations unknown, and loses nothing else** that is cached for the analyses
that do not depend on them. -/
theorem strips_run (m : Manager ε) (u : Operation) (w : World) :
    m.Strips u ({ m with passes := [.stripDebugInfo] }.run u w) := by
  obtain ⟨hunit, hresult, hcache⟩ := m.run_stripDebugInfo u w
  have halike (o : Operation) : o.Alike o.stripped := alike_iff.mpr o.stripped_stripped.symm
  refine ⟨hresult, ?_, ?_, ?_, ?_, ?_, ?_⟩
  · rw [hunit]
    exact halike u
  · rw [hunit]
    exact fun o => location_of_mem_walk_stripped
  · intro v hv hunknown
    have hsame : u.stripped = v.stripped := alike_iff.mp hv
    rw [hunit, hsame, stripped_eq_self hunknown]
  · intro n w'
    rw [(n.run_stripDebugInfo _ w').1, hunit, stripped_stripped]
  · intro path o ho
    have hplace : u.stripped.at? path = some o.stripped := by rw [at?_stripped, ho, Option.map_some]
    rw [hunit]
    refine ⟨o.stripped, hplace, halike o, fun i hi => ?_⟩
    have hkey : CacheKey.of i o.stripped = .of i o := by
      rw [CacheKey.of, CacheKey.of, fingerprint_stripped]
    have hget : ({ m with passes := [.stripDebugInfo] }.run u w).manager.cache.get?
        (.of i o.stripped) = m.cache.get? (.of i o) := by
      have hkeeps : ({ ids := locationFree } : Preserved).keeps i = true := by
        simpa [Preserved.keeps] using hi
      rw [hcache, Cache.get?_retain, hkey]
      exact if_pos hkeeps
    refine ⟨hget, fun ρ a ha hvalid => ?_⟩
    obtain ⟨v, hv⟩ := isAnalysisValid_iff.mp hvalid
    subst ha
    rw [getAnalysis_of_get? (hget.trans hv), getAnalysis_of_get? hv]
  · intro e he name hid
    rw [hcache] at he
    have hkeeps := (List.mem_filter.mp he).2
    rw [hid] at hkeeps
    simp [Preserved.keeps, locationFree] at hkeeps

end Manager

/-- **Locations leak nowhere.** Programs that differ at most in locations have the same fingerprint,
the same results of the built-in analyses, and the same text form without debug information. The
pass that makes locations unknown changes nothing else in a program; what was cached for the
built-in analyses is found again in the same place, and no result of another analysis is kept. -/
theorem location_noninterference (ε : Type) :
    (∀ a b : Operation, a.Alike b → fingerprint a = fingerprint b ∧
      (operationCount ε).analyze a = (operationCount ε).analyze b ∧
      (symbolTable ε).analyze a = (symbolTable ε).analyze b ∧
      ∀ (ansi : Bool) (f : Print.Flags), f.debugInfo = false →
        Print.Printer.textForm.render ansi f a = Print.Printer.textForm.render ansi f b) ∧
    ∀ (m : Manager ε) (u : Operation) (w : World),
      m.Strips u ({ m with passes := [.stripDebugInfo] }.run u w) := by
  refine ⟨fun a b h => ?_, Manager.strips_run⟩
  have hsame : a.stripped = b.stripped := alike_iff.mp h
  refine ⟨?_, (operationCount_ofContent ε).analyze_eq hsame,
    (symbolTable_ofContent ε).analyze_eq hsame, fun ansi f hf => ?_⟩
  · rw [← fingerprint_stripped a, hsame, fingerprint_stripped]
  · have hlines : Print.lines ansi f a = Print.lines ansi f b := by
      rw [← Print.lines_stripped ansi hf a, hsame, Print.lines_stripped ansi hf]
    simp only [Print.Printer.textForm, hlines]

/-- A program with a location, and a nested operation with another for which a result is cached. -/
theorem location_noninterference_nested :
    let leaf : Operation := { name := "exit", location := .name "here" }
    let u : Operation := {
      name := "main"
      regions := [{ blocks := [{ operations := [leaf] }] }]
      location := .fileLineCol "a" 1 2 }
    let v : Operation := {
      name := "main"
      regions := [{ blocks := [{ operations := [{ leaf with location := .name "there" }] }] }] }
    let m : Manager Unit := (({} : Manager Unit).cacheAnalysis .symbolTable leaf (.other ())
      ).cacheAnalysis (.custom "size") u (.other ())
    let r := { m with passes := [.stripDebugInfo] }.run u {}
    u.Alike v ∧ fingerprint u = fingerprint v ∧
      (∃ o, r.unit.at? [⟨0, 0, 0⟩] = some o ∧ leaf.Alike o ∧
        r.manager.isAnalysisValid o .symbolTable = true) ∧
      ∀ e ∈ r.manager.cache.entries, e.1.id ≠ .custom "size" := by
  intro leaf u v m r
  have halike : u.Alike v :=
    .intro rfl rfl rfl rfl (.cons (.intro (.cons
      (.intro rfl (.cons (.intro rfl rfl rfl rfl .nil) .nil)) .nil)) .nil)
  have hcached : m.cache.get? (.of .symbolTable leaf) = some (.other ()) := by
    have hne : CacheKey.of (.custom "size") u ≠ .of .symbolTable leaf := by simp [CacheKey.of]
    simp only [m, Manager.cacheAnalysis, Cache.get?_insert, if_neg hne, if_true]
  obtain ⟨hviews, hstrips⟩ := location_noninterference Unit
  have hr : m.Strips u r := hstrips m u {}
  obtain ⟨o, ho, hleaf, hkept⟩ := hr.kept [⟨0, 0, 0⟩] leaf rfl
  have hfound := (hkept .symbolTable (by simp [Manager.locationFree])).1.trans hcached
  exact ⟨halike, (hviews u v halike).1,
    ⟨o, ho, hleaf, Manager.isAnalysisValid_iff.mpr ⟨_, hfound⟩⟩, fun e he => hr.dropped e he "size"⟩

end OpTree
