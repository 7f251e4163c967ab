import OpTree.Pass.Manager
import Mathlib.Data.List.Basic

/-!
A run of passes, said without its loop. Every pass would have its turn, each on the program that
the turn before it left; the policy decides how many turns are taken. The loop is a fold over the
turns taken, and everything a run leaves behind is read off them.
-/

namespace OpTree

open OpTree.IR

/-- The failure of a pass: what it gave up with, or else the last failure that it signalled. -/
def PassOutcome.cause? (o : PassOutcome) : Option Failure :=
  match o.failure with
  | some f => some f
  | none => o.state.signals.getLast?

/-- A pass and what came of it. -/
structure Turn where
  pass : Pass
  outcome : PassOutcome

namespace Turn

def failed (t : Turn) : Bool := t.outcome.cause?.isSome

def failure? (t : Turn) : Option PassFailure := t.outcome.cause?.map fun f => ⟨t.pass.name, f⟩

def statistic (t : Turn) : Statistic := ⟨t.pass.name, t.failed⟩

/-- The surroundings in which the next pass has its turn. -/
def world (t : Turn) : World :=
  Pass.noteOutcome t.pass.name t.outcome.cause?
    (t.outcome.state.world.flushDiagnostics t.pass.name)

def execution (t : Turn) : Execution :=
  ⟨t.outcome.unit, t.world, t.outcome.state.preserved, t.outcome.cause?⟩

end Turn

/-- The turn of a pass. It begins with nothing signalled and nothing preserved. -/
def Pass.turn (p : Pass) (op : Operation) (w : World) : Turn where
  pass := p
  outcome := p.run op
    { world := w.note .debug "running pass" [("pass", .name p.name), ("op", .text op.name)] }

/-- The turns of all passes, each on what the one before left, also if that one failed. -/
def turns : List Pass → Operation → World → List Turn
  | [], _, _ => []
  | p :: ps, op, w =>
    p.turn op w :: turns ps (p.turn op w).outcome.unit (p.turn op w).world

/-- The turns that are taken: all, or those up to and including the first that fails. -/
def FailurePolicy.taken (policy : FailurePolicy) (ts : List Turn) : List Turn :=
  match policy with
  | .proceed => ts
  | .halt => ts.take (ts.findIdx Turn.failed + 1)

lemma execute_eq_execution (p : Pass) (op : Operation) (w : World) :
    p.execute op w = (p.turn op w).execution := by
  have hc : ∀ o : PassOutcome, (o.failure <|> o.state.failure?) = o.cause? := by
    intro o
    unfold PassOutcome.cause? PassState.failure?
    cases o.failure <;> rfl
  simp only [Pass.execute, hc]
  rfl

/-! ### The turns that a policy takes -/

namespace FailurePolicy

@[simp] lemma taken_nil (policy : FailurePolicy) : policy.taken [] = [] := by
  cases policy <;> rfl

lemma taken_cons (policy : FailurePolicy) (t : Turn) (ts : List Turn) :
    policy.taken (t :: ts) =
      t :: if policy = .halt ∧ t.failed then [] else policy.taken ts := by
  cases policy with
  | proceed => rfl
  | halt => cases h : t.failed <;> simp [taken, List.findIdx_cons, h]

/-- A turn is taken when the policy is to go on, or no turn before it fails. -/
lemma getElem?_taken (policy : FailurePolicy) (ts : List Turn) (i : ℕ) (t : Turn) :
    (policy.taken ts)[i]? = some t ↔
      ts[i]? = some t ∧
        (policy = .halt → ∀ j < i, ∀ u, ts[j]? = some u → u.failed = false) := by
  induction ts generalizing i with
  | nil => simp
  | cons a ts ih =>
    rw [taken_cons]
    cases i with
    | zero => simp
    | succ i =>
      rw [List.getElem?_cons_succ, List.getElem?_cons_succ]
      by_cases ha : policy = .halt ∧ a.failed
      · rw [if_pos ha]
        refine iff_of_false (by simp) fun h => ?_
        have hf : a.failed = false := h.2 ha.1 0 (by omega) a rfl
        rw [ha.2] at hf
        cases hf
      · rw [if_neg ha, ih]
        refine and_congr_right fun _ => forall_congr' fun hp => ⟨fun h j hj u hu => ?_,
          fun h j hj u hu => h (j + 1) (by omega) u hu⟩
        cases j with
        | zero =>
          obtain rfl : a = u := by simpa using hu
          simpa [hp] using ha
        | succ j => exact h j (by omega) u hu

end FailurePolicy

/-! ### The loop -/

variable {ε : Type}

namespace Progress

def absorb (s : Progress ε) (t : Turn) : Progress ε := s.advance t.pass.name t.execution

/-- The loop takes in the turns that the policy takes, in order, and nothing else. -/
theorem run_eq_foldl (policy : FailurePolicy) (ps : List Pass) (s : Progress ε) :
    run policy ps s = (policy.taken (turns ps s.unit s.world)).foldl absorb s := by
  induction ps generalizing s with
  | nil => simp [run, turns]
  | cons p ps ih =>
    simp only [run, turns, FailurePolicy.taken_cons, List.foldl_cons, execute_eq_execution]
    -- the loop looks at the failure that it keeps, the policy at the failure of the turn
    by_cases h : policy = .halt ∧ (p.turn s.unit s.world).failed
    · have h' : policy = .halt ∧ (p.turn s.unit s.world).execution.failure.isSome := h
      rw [if_pos h, if_pos h']
      rfl
    · have h' : ¬ (policy = .halt ∧ (p.turn s.unit s.world).execution.failure.isSome) := h
      rw [if_neg h, if_neg h', ih]
      rfl

lemma replaced_foldl {α : Type} (g : Progress ε → α) (h : Turn → α)
    (hg : ∀ s t, g (absorb s t) = h t) (ts : List Turn) (s : Progress ε) :
    g (ts.foldl absorb s) = (ts.getLast?.map h).getD (g s) := by
  induction ts generalizing s with
  | nil => rfl
  | cons t ts ih =>
    rw [List.foldl_cons, ih, hg, List.getLast?_cons]
    cases ts.getLast? <;> rfl

lemma collected_foldl {α : Type} (g : Progress ε → List α) (h : Turn → List α)
    (hg : ∀ s t, g (absorb s t) = g s ++ h t) (ts : List Turn) (s : Progress ε) :
    g (ts.foldl absorb s) = g s ++ ts.flatMap h := by
  induction ts generalizing s with
  | nil => simp
  | cons t ts ih => rw [List.foldl_cons, ih, hg, List.flatMap_cons, List.append_assoc]

lemma unit_foldl (ts : List Turn) (s : Progress ε) :
    (ts.foldl absorb s).unit = (ts.getLast?.map fun t => t.outcome.unit).getD s.unit :=
  replaced_foldl Progress.unit _ (fun _ _ => rfl) ts s

lemma world_foldl (ts : List Turn) (s : Progress ε) :
    (ts.foldl absorb s).world = (ts.getLast?.map Turn.world).getD s.world :=
  replaced_foldl Progress.world _ (fun _ _ => rfl) ts s

lemma executed_foldl (ts : List Turn) (s : Progress ε) :
    (ts.foldl absorb s).executed = s.executed ++ ts.map Turn.statistic := by
  rw [List.map_eq_flatMap]
  exact collected_foldl executed _ (fun _ _ => rfl) ts s

lemma failures_foldl (ts : List Turn) (s : Progress ε) :
    (ts.foldl absorb s).failures = s.failures ++ ts.filterMap Turn.failure? := by
  rw [List.filterMap_eq_flatMap_toList]
  exact collected_foldl failures _ (fun _ _ => rfl) ts s

lemma cache_foldl (ts : List Turn) (s : Progress ε) :
    (ts.foldl absorb s).cache =
      ts.foldl (fun c t => c.retain t.outcome.state.preserved) s.cache := by
  induction ts generalizing s with
  | nil => rfl
  | cons t ts ih =>
    rw [List.foldl_cons, ih]
    rfl

end Progress

namespace RunError

lemma ofFailures_eq_ok {fs : List PassFailure} : ofFailures fs = .ok () ↔ fs = [] := by
  rcases fs with _ | ⟨f, _ | ⟨g, fs⟩⟩ <;> simp [ofFailures]

lemma ofFailures_eq_failed {fs : List PassFailure} {f : PassFailure} :
    ofFailures fs = .error (.failed f) ↔ fs = [f] := by
  rcases fs with _ | ⟨g, _ | ⟨g', fs⟩⟩ <;> simp [ofFailures]

lemma ofFailures_eq_multiple {fs gs : List PassFailure} :
    ofFailures fs = .error (.multiple gs) ↔ 2 ≤ gs.length ∧ fs = gs := by
  rcases fs with _ | ⟨f, _ | ⟨g, fs⟩⟩
  · simp only [ofFailures, reduceCtorEq, false_iff, not_and]
    rintro h rfl
    simp at h
  · simp only [ofFailures, Except.error.injEq, reduceCtorEq, false_iff, not_and]
    rintro h rfl
    simp at h
  · simp only [ofFailures, Except.error.injEq, multiple.injEq]
    refine ⟨fun h => ⟨?_, h⟩, And.right⟩
    subst h
    simp

end RunError

lemma failure?_filterMap_eq_nil {ts : List Turn} :
    ts.filterMap Turn.failure? = [] ↔ ∀ t ∈ ts, t.outcome.cause? = none := by
  simp [List.filterMap_eq_nil_iff, Turn.failure?]

/-- What a run leaves behind, read off the turns that were taken. -/
theorem Manager.run_eq (m : Manager ε) (op : Operation) (w : World) :
    m.run op w =
      let ts := m.policy.taken (turns m.passes op w)
      { manager :=
          { m with
            cache := ts.foldl (fun c t => c.retain t.outcome.state.preserved) m.cache
            statistics :=
              m.statistics ++ if m.collectStatistics then ts.map Turn.statistic else [] }
        unit := (ts.getLast?.map fun t => t.outcome.unit).getD op
        world := (ts.getLast?.map Turn.world).getD w
        result := RunError.ofFailures (ts.filterMap Turn.failure?) } := by
  simp only [Manager.run, Progress.run_eq_foldl, Progress.unit_foldl, Progress.world_foldl,
    Progress.cache_foldl, Progress.executed_foldl, Progress.failures_foldl, List.nil_append]

/-- What a run over a program has to leave behind when these are the turns that were taken. -/
structure Manager.Reports (m : Manager ε) (op : Operation) (ts : List Turn)
    (r : RunOutcome ε) : Prop where
  /-- The program is the one that the last turn left. -/
  unit : r.unit = (ts.getLast?.map fun t => t.outcome.unit).getD op
  ok : r.result = .ok () ↔ ∀ t ∈ ts, t.outcome.cause? = none
  failed : ∀ f, r.result = .error (.failed f) ↔ ts.filterMap Turn.failure? = [f]
  multiple : ∀ fs, r.result = .error (.multiple fs) ↔
    2 ≤ fs.length ∧ ts.filterMap Turn.failure? = fs
  statistics : r.manager.statistics =
    m.statistics ++ if m.collectStatistics then ts.map Turn.statistic else []

/-- **A run reports its turns.** The turn of a pass is taken unless the policy is to halt and a
pass before it fails, and what the run leaves behind is what these turns amount to. -/
theorem run_reports_turns (m : Manager ε) (op : Operation) (w : World) :
    let all := turns m.passes op w
    let ts := m.policy.taken all
    (∀ (i : ℕ) (t : Turn), ts[i]? = some t ↔ all[i]? = some t ∧
      (m.policy = .halt → ∀ j < i, ∀ u : Turn, all[j]? = some u → u.failed = false)) ∧
    m.Reports op ts (m.run op w) := by
  intro all ts
  refine ⟨m.policy.getElem?_taken all, ?_⟩
  rw [Manager.run_eq]
  exact
    { unit := rfl
      ok := by rw [RunError.ofFailures_eq_ok, failure?_filterMap_eq_nil]
      failed := fun _ => RunError.ofFailures_eq_failed
      multiple := fun _ => RunError.ofFailures_eq_multiple
      statistics := rfl }

end OpTree
