import OpTree.Proofs.Turns
import Mathlib.Data.List.Induction

/-!
The cache over a history of requests to one manager. A key is bound as long as some request has
stored a result under it and every pass that had its turn since then kept the analysis; it is bound
to the result that was stored last.
-/

namespace OpTree

open OpTree.IR OpTree.Analysis

/-- Something that a manager is asked for. -/
inductive Request (ε : Type) : Type 1
  | get {ρ : Type} (a : Analysis ε ρ) (op : Operation)
  | put (i : Id) (op : Operation) (v : Stored ε)
  | check (i : Id) (op : Operation)
  /-- A run with the passes and the policy that the manager has by then. -/
  | run (passes : List Pass) (policy : FailurePolicy) (op : Operation) (w : World)

variable {ε : Type}

/-- Every pass that has its turn in the request keeps the analysis. -/
def Request.Keeps (i : Id) : Request ε → Prop
  | .run ps policy op w => ∀ t ∈ policy.taken (turns ps op w), t.outcome.state.preserved.keeps i
  | _ => True

namespace Manager

def serve (m : Manager ε) : Request ε → Manager ε
  | .get a op => (m.getAnalysis a op).1
  | .put i op v => m.cacheAnalysis i op v
  | .check _ _ => m
  | .run ps policy op w => ({ m with passes := ps, policy }.run op w).manager

def replay (m : Manager ε) (h : List (Request ε)) : Manager ε := h.foldl serve m

def fresh (m : Manager ε) : Manager ε := { m with cache := {} }

/-- What a request stores under a key, if anything. An analysis is run only where there is no
result yet, and its result is stored if it has one. -/
def stores? (m : Manager ε) (k : CacheKey) : Request ε → Option (Stored ε)
  | .get a op =>
    if CacheKey.of a.id op = k ∧ m.isAnalysisValid op a.id = false then
      (a.analyze op).toOption.map a.store
    else none
  | .put i op v => if CacheKey.of i op = k then some v else none
  | _ => none

@[simp] lemma replay_nil (m : Manager ε) : m.replay [] = m := rfl

lemma replay_append (m : Manager ε) (h l : List (Request ε)) :
    m.replay (h ++ l) = (m.replay h).replay l := by
  simp [replay, List.foldl_append]

@[simp] lemma replay_concat (m : Manager ε) (h : List (Request ε)) (r : Request ε) :
    m.replay (h ++ [r]) = (m.replay h).serve r := by
  rw [replay_append]
  rfl

end Manager

/-! ### The cache -/

namespace Analysis.Cache

lemma find?_filter_key (p : CacheKey × Stored ε → Bool) (k : CacheKey) (b : Bool)
    (hp : ∀ e, e.1 = k → p e = b) (es : List (CacheKey × Stored ε)) :
    (es.filter p).find? (·.1 = k) = if b then es.find? (·.1 = k) else none := by
  induction es with
  | nil => simp
  | cons e es ih =>
    by_cases he : e.1 = k
    · have hpe : p e = b := hp e he
      cases b
      · rw [List.filter_cons_of_neg (by simp [hpe]), ih]
        rfl
      · rw [List.filter_cons_of_pos hpe]
        simp [he]
    · cases hpe : p e
      · rw [List.filter_cons_of_neg (by simp [hpe]), ih]
        simp [he]
      · rw [List.filter_cons_of_pos hpe, List.find?_cons_of_neg (by simp [he]), ih]
        simp [he]

lemma get?_insert (c : Cache ε) (k l : CacheKey) (v : Stored ε) :
    (c.insert k v).get? l = if k = l then some v else c.get? l := by
  by_cases h : k = l
  · simp [get?, insert, h]
  · have hf := find?_filter_key (ε := ε) (·.1 ≠ k) l true
      (fun e he => by simpa [he] using Ne.symm h) c.entries
    simp only [get?, insert, List.find?_cons, h, decide_false, hf, if_true, if_false]

lemma get?_retain (c : Cache ε) (p : Preserved) (k : CacheKey) :
    (c.retain p).get? k = if p.keeps k.id then c.get? k else none := by
  have hf := find?_filter_key (ε := ε) (fun e => p.keeps e.1.id) k (p.keeps k.id)
    (fun e he => by rw [he]) c.entries
  simp only [get?, retain, hf]
  cases p.keeps k.id <;> rfl

lemma get?_foldl_retain (c : Cache ε) (ts : List Turn) (k : CacheKey) (v : Stored ε) :
    (ts.foldl (fun c t => c.retain t.outcome.state.preserved) c).get? k = some v ↔
      (∀ t ∈ ts, t.outcome.state.preserved.keeps k.id) ∧ c.get? k = some v := by
  induction ts generalizing c with
  | nil => simp
  | cons t ts ih =>
    rw [List.foldl_cons, ih, get?_retain]
    by_cases h : t.outcome.state.preserved.keeps k.id <;> simp [h]

end Analysis.Cache

/-! ### One request -/

namespace Manager

lemma get?_getAnalysis {ρ : Type} (m : Manager ε) (a : Analysis ε ρ) (op : Operation)
    (k : CacheKey) :
    (m.getAnalysis a op).1.cache.get? k =
      (m.stores? k (.get a op)).or (m.cache.get? k) := by
  cases hc : m.cache.get? (.of a.id op) with
  | some u =>
    simp [getAnalysis, Cache.analyze, stores?, isAnalysisValid, Cache.contains, hc]
  | none =>
    cases ha : a.analyze op with
    | error e => simp [getAnalysis, Cache.analyze, stores?, Except.toOption, hc, ha]
    | ok r =>
      simp only [getAnalysis, Cache.analyze, stores?, isAnalysisValid, Cache.contains, hc, ha,
        Cache.get?_insert, Except.toOption, Option.isSome_none, and_true, Option.map_some]
      split <;> simp

/-- Either a request stores a result under a key, or the key is bound as before if the request
keeps the analysis. -/
theorem get?_serve (m : Manager ε) (r : Request ε) (k : CacheKey) (v : Stored ε) :
    (m.serve r).cache.get? k = some v ↔
      m.stores? k r = some v ∨
        m.stores? k r = none ∧ r.Keeps k.id ∧ m.cache.get? k = some v := by
  cases r with
  | get a op =>
    rw [serve, get?_getAnalysis]
    cases m.stores? k (.get a op) <;> simp [Request.Keeps]
  | put i op u =>
    rw [serve, cacheAnalysis, Cache.get?_insert, stores?]
    split <;> simp [Request.Keeps]
  | check i op => simp [serve, stores?, Request.Keeps]
  | run ps policy op w =>
    simp only [serve, run_eq, Cache.get?_foldl_retain, stores?, Request.Keeps, reduceCtorEq,
      false_or, true_and]

lemma getAnalysis_of_error {ρ : Type} {m : Manager ε} {a : Analysis ε ρ} {op : Operation}
    {e : Analysis.Error} (h : (m.getAnalysis a op).2 = .error e) : (m.getAnalysis a op).1 = m := by
  cases hc : m.cache.get? (.of a.id op) with
  | some u => simp [getAnalysis, Cache.analyze, hc]
  | none =>
    cases ha : a.analyze op with
    | error e' => simp [getAnalysis, Cache.analyze, hc, ha]
    | ok r => simp [getAnalysis, Cache.analyze, hc, ha] at h

/-! ### A whole history -/

/-- A key is bound to the result that was stored last, if every run since then kept it. -/
theorem get?_replay (m : Manager ε) (h : List (Request ε)) (k : CacheKey) (v : Stored ε) :
    (m.fresh.replay h).cache.get? k = some v ↔
      ∃ before r after, h = before ++ r :: after ∧
        (m.fresh.replay before).stores? k r = some v ∧ (∀ l ∈ after, l.Keeps k.id) ∧
        ∀ mid l, mid ++ [l] <+: after →
          (m.fresh.replay (before ++ r :: mid)).stores? k l = none := by
  induction h using List.reverseRecOn generalizing v with
  | nil => simp [fresh, Cache.get?]
  | append_singleton h q ih =>
    rw [replay_concat, get?_serve, ih]
    constructor
    · -- the last request stores the result, or the binding is older and passes through it
      rintro (hs | ⟨hs, hk, before, r, after, rfl, hr, hkeep, hnone⟩)
      · exact ⟨h, q, [], rfl, hs, by simp, by simp⟩
      · refine ⟨before, r, after ++ [q], by simp, hr, ?_, ?_⟩
        · intro l hl
          rcases List.mem_append.mp hl with hl | hl
          · exact hkeep l hl
          · rwa [List.mem_singleton.mp hl]
        · intro mid l hl
          rcases List.prefix_concat_iff.mp hl with he | hp
          · obtain ⟨rfl, rfl⟩ := List.append_inj' he rfl |>.imp id (by simpa using ·)
            exact hs
          · exact hnone mid l hp
    · -- the storing request is the last one, or a request of the shorter history
      rintro ⟨before, r, after, he, hr, hkeep, hnone⟩
      rcases List.eq_nil_or_concat after with rfl | ⟨after, l, rfl⟩
      · obtain ⟨rfl, rfl⟩ := List.append_inj' he rfl |>.imp id (by simpa using ·)
        exact Or.inl hr
      · rw [List.concat_eq_append] at he hkeep hnone
        have he' : h ++ [q] = (before ++ r :: after) ++ [l] := by simpa using he
        obtain ⟨rfl, rfl⟩ := List.append_inj' he' rfl |>.imp id (by simpa using ·)
        refine Or.inr ⟨hnone after q (List.prefix_refl _), hkeep q (by simp), before, r, after,
          rfl, hr, fun l hl => hkeep l (by simp [hl]), fun mid l hl => hnone mid l ?_⟩
        exact hl.trans (List.prefix_append _ _)

lemma isAnalysisValid_iff {m : Manager ε} {op : Operation} {i : Id} :
    m.isAnalysisValid op i = true ↔ ∃ v, m.cache.get? (.of i op) = some v := by
  rw [isAnalysisValid, Cache.contains, Option.isSome_iff_exists]

lemma exists_get?_replay {m : Manager ε} {k : CacheKey} {h : List (Request ε)}
    (hk : ∀ l ∈ h, l.Keeps k.id) (hm : ∃ v, m.cache.get? k = some v) :
    ∃ v, (m.replay h).cache.get? k = some v := by
  induction h generalizing m with
  | nil => exact hm
  | cons r h ih =>
    refine ih (m := m.serve r) (fun l hl => hk l (by simp [hl])) ?_
    obtain ⟨v, hv⟩ := hm
    cases hs : m.stores? k r with
    | some u => exact ⟨u, (get?_serve m r k u).mpr (Or.inl hs)⟩
    | none => exact ⟨v, (get?_serve m r k v).mpr (Or.inr ⟨hs, hk r (by simp), hv⟩)⟩

end Manager

/-- **What is cached after a history.** An analysis is valid exactly when some request has stored
a result for it and every pass executed since then kept it; the result is the one stored last; and
a request that fails leaves the manager as it was. -/
theorem cached_iff_stored_and_kept (m : Manager ε) (h : List (Request ε)) :
    (∀ (op : Operation) (i : Id), (m.fresh.replay h).isAnalysisValid op i = true ↔
      ∃ before r after, h = before ++ r :: after ∧
        (∃ v, (m.fresh.replay before).stores? (.of i op) r = some v) ∧
        ∀ l ∈ after, l.Keeps i) ∧
    (∀ (op : Operation) (i : Id) (v : Stored ε),
      (m.fresh.replay h).cache.get? (.of i op) = some v ↔
      ∃ before r after, h = before ++ r :: after ∧
        (m.fresh.replay before).stores? (.of i op) r = some v ∧ (∀ l ∈ after, l.Keeps i) ∧
        ∀ mid l, mid ++ [l] <+: after →
          (m.fresh.replay (before ++ r :: mid)).stores? (.of i op) l = none) ∧
    ∀ (ρ : Type) (a : Analysis ε ρ) (op : Operation) (e : Analysis.Error),
      ((m.fresh.replay h).getAnalysis a op).2 = .error e →
        ((m.fresh.replay h).getAnalysis a op).1 = m.fresh.replay h := by
  refine ⟨fun op i => ?_, fun op i v => Manager.get?_replay m h _ v,
    fun _ _ _ _ he => Manager.getAnalysis_of_error he⟩
  rw [Manager.isAnalysisValid_iff]
  constructor
  · rintro ⟨v, hv⟩
    obtain ⟨before, r, after, he, hr, hkeep, -⟩ := (Manager.get?_replay m h _ v).mp hv
    exact ⟨before, r, after, he, ⟨v, hr⟩, hkeep⟩
  · rintro ⟨before, r, after, rfl, ⟨v, hv⟩, hkeep⟩
    have hb : ((m.fresh.replay before).serve r).cache.get? (.of i op) = some v :=
      (Manager.get?_serve _ r _ v).mpr (Or.inl hv)
    rw [List.append_cons, Manager.replay_append, Manager.replay_concat]
    exact Manager.exists_get?_replay hkeep ⟨v, hb⟩

end OpTree
