import OpTree.Proofs.CacheHistory
import OpTree.Proofs.Content

/-!
Cached results are never stale. A result in the cache was computed for some program with the
fingerprint that is looked up; without collisions that program has the content of the one in hand,
and the built-in analyses see nothing but the content.
-/

namespace OpTree

open OpTree.IR OpTree.Analysis

/-- Programs with the same fingerprint have the same content. -/
def CollisionFree (ops : List Operation) : Prop :=
  ∀ a ∈ ops, ∀ b ∈ ops, fingerprint a = fingerprint b → a.SameContent b

lemma CollisionFree.mono {k l : List Operation} (h : CollisionFree l) (hk : k ⊆ l) :
    CollisionFree k :=
  fun a ha b hb => h a (hk ha) b (hk hb)

variable {ε ρ : Type}

namespace Request

/-- The program for which an analysis is asked. -/
def asked? : Request ε → Option Operation
  | .get _ op => some op
  | _ => none

/-- The request uses the name of an analysis for nothing else: no other analysis goes by it, and
nothing is put into the cache under it. -/
def Reserves (a : Analysis ε ρ) : Request ε → Prop
  | .get b _ => b.id = a.id → (⟨_, b⟩ : Σ τ : Type, Analysis ε τ) = ⟨ρ, a⟩
  | .put i _ _ => i ≠ a.id
  | _ => True

lemma Reserves.stores? {a : Analysis ε ρ} {r : Request ε} (hr : r.Reserves a) {m : Manager ε}
    {op : Operation} {v : Stored ε} (hv : m.stores? (.of a.id op) r = some v) :
    ∃ x y, r.asked? = some x ∧ fingerprint x = fingerprint op ∧ a.analyze x = .ok y ∧
      v = a.store y := by
  cases r with
  | get b x =>
    simp only [Manager.stores?] at hv
    split at hv
    · rename_i hk
      obtain ⟨hid, hfp⟩ : b.id = a.id ∧ fingerprint x = fingerprint op := by
        simpa [CacheKey.of] using hk.1
      cases hr hid
      cases hx : a.analyze x with
      | error e => simp [hx, Except.toOption] at hv
      | ok y =>
        have hy : a.store y = v := by simpa [hx, Except.toOption] using hv
        exact ⟨x, y, rfl, hfp, hx, hy.symm⟩
    · simp at hv
  | put i x u =>
    have hi : i ≠ a.id := hr
    simp [Manager.stores?, CacheKey.of, hi] at hv
  | check i x => simp [Manager.stores?] at hv
  | run ps policy x w => simp [Manager.stores?] at hv

end Request

/-- After any history, an analysis of contents gives what it would give if it were run now. -/
lemma getAnalysis_of_reserved (m : Manager ε) {a : Analysis ε ρ} (ha : a.OfContent)
    {h : List (Request ε)} (hres : ∀ r ∈ h, r.Reserves a) {op : Operation}
    (hfree : CollisionFree (op :: h.filterMap Request.asked?)) :
    ((m.fresh.replay h).getAnalysis a op).2 = a.analyze op := by
  cases hc : (m.fresh.replay h).cache.get? (.of a.id op) with
  | none =>
    cases hx : a.analyze op <;> simp [Manager.getAnalysis, Cache.analyze, hc, hx]
  | some v =>
    obtain ⟨before, r, after, rfl, hr, -, -⟩ := (Manager.get?_replay m h _ v).mp hc
    obtain ⟨x, y, hx, hfp, hy, rfl⟩ := (hres r (by simp)).stores? hr
    have hmem : x ∈ (before ++ r :: after).filterMap Request.asked? :=
      List.mem_filterMap.mpr ⟨r, by simp, hx⟩
    have hsame : x.SameContent op := hfree x (List.mem_cons_of_mem op hmem) op (by simp) hfp
    rw [← ha.analyze_eq hsame, hy]
    simp [Manager.getAnalysis, Cache.analyze, hc, a.retrieve_store]

/-- **Cached results are never stale.** In a history without collisions, in which the names of the
built-in analyses stand for nothing else, each request for one of them gives what the analysis
gives when it is run on the program at that moment. -/
theorem getAnalysis_eq_analyze (m : Manager ε) (h : List (Request ε))
    (hcount : ∀ r ∈ h, r.Reserves (operationCount ε))
    (hsymbol : ∀ r ∈ h, r.Reserves (symbolTable ε))
    (hfree : CollisionFree (h.filterMap Request.asked?)) :
    (∀ before op after, h = before ++ .get (operationCount ε) op :: after →
      ((m.fresh.replay before).getAnalysis (operationCount ε) op).2 =
        (operationCount ε).analyze op) ∧
    ∀ before op after, h = before ++ .get (symbolTable ε) op :: after →
      ((m.fresh.replay before).getAnalysis (symbolTable ε) op).2 = (symbolTable ε).analyze op := by
  have hpast : ∀ {σ : Type} (a : Analysis ε σ) (before : List (Request ε)) (op : Operation)
      (after : List (Request ε)), h = before ++ .get a op :: after →
      CollisionFree (op :: before.filterMap Request.asked?) := by
    rintro σ a before op after rfl
    refine hfree.mono (List.cons_subset.mpr ⟨?_, ?_⟩)
    · exact List.mem_filterMap.mpr ⟨.get a op, by simp, rfl⟩
    · rw [List.filterMap_append]
      exact List.subset_append_left _ _
  constructor
  · intro before op after hh
    exact getAnalysis_of_reserved m (operationCount_ofContent ε)
      (fun r hr => hcount r (by simp [hh, hr])) (hpast _ before op after hh)
  · intro before op after hh
    exact getAnalysis_of_reserved m (symbolTable_ofContent ε)
      (fun r hr => hsymbol r (by simp [hh, hr])) (hpast _ before op after hh)

/-- A history in which the same program is asked for with and without its location, before and
after the pass that drops it, and a different program in between. -/
def movedHistory : List (Request Unit) :=
  [.get (operationCount Unit) { name := "exit", location := .name "main" },
    .get (symbolTable Unit) { name := "halt" },
    .run [.stripDebugInfo] .halt { name := "exit", location := .name "main" } {},
    .get (operationCount Unit) { name := "exit" }]

lemma collisionFree_movedHistory : CollisionFree (movedHistory.filterMap Request.asked?) := by
  have hne : fingerprint { name := "exit" } ≠ fingerprint { name := "halt" } := by
    simp only [fingerprint, Fingerprint.operationBytes]
    decide +kernel
  have hfp : fingerprint { name := "exit", location := .name "main" } =
      fingerprint { name := "exit" } := by
    simp only [fingerprint, Fingerprint.operationBytes]
  have hst : Operation.stripped { name := "exit", location := .name "main" } =
      Operation.stripped { name := "exit" } := by
    simp only [Operation.stripped, Operation.mapWalk]
  have hcases : ∀ o ∈ movedHistory.filterMap Request.asked?, o = { name := "halt" } ∨
      fingerprint o = fingerprint { name := "exit" } ∧
        o.stripped = Operation.stripped { name := "exit" } := by
    intro o ho
    simp only [movedHistory, Request.asked?, List.filterMap_cons, List.filterMap_nil,
      List.mem_cons, List.not_mem_nil, or_false] at ho
    rcases ho with rfl | rfl | rfl
    · exact Or.inr ⟨hfp, hst⟩
    · exact Or.inl rfl
    · exact Or.inr ⟨rfl, rfl⟩
  intro a ha b hb hab
  rcases hcases a ha with rfl | ⟨hfa, hsa⟩
  · rcases hcases b hb with rfl | ⟨hfb, -⟩
    · rfl
    · exact absurd (hfb.symm.trans hab.symm) hne
  · rcases hcases b hb with rfl | ⟨-, hsb⟩
    · exact absurd (hfa.symm.trans hab) hne
    · exact hsa.trans hsb.symm

theorem getAnalysis_eq_analyze_moved :
    CollisionFree (movedHistory.filterMap Request.asked?) ∧
    ((({} : Manager Unit).fresh.replay (movedHistory.take 3)).getAnalysis (operationCount Unit)
        { name := "exit" }).2 = (operationCount Unit).analyze { name := "exit" } := by
  refine ⟨collisionFree_movedHistory, (getAnalysis_eq_analyze {} movedHistory ?_ ?_
    collisionFree_movedHistory).1 _ _ [] rfl⟩
  · intro r hr
    simp only [movedHistory, List.mem_cons, List.not_mem_nil, or_false] at hr
    rcases hr with rfl | rfl | rfl | rfl <;> simp [Request.Reserves, operationCount, symbolTable]
  · intro r hr
    simp only [movedHistory, List.mem_cons, List.not_mem_nil, or_false] at hr
    rcases hr with rfl | rfl | rfl | rfl <;> simp [Request.Reserves, operationCount, symbolTable]

end OpTree
