import OpTree.Proofs.FirstOccurrence
import OpTree.Proofs.Populating

/-!
What a registry lists and finds. A registration drops what was registered under its name before and
takes its place at the end. So after any history of registrations each name is listed once, with
its latest registration and in the order of these, and although the first match in the list is
taken for an entry, its pass is built by the latest registration of its name.
-/

namespace OpTree.Pipeline

/-! ### Histories -/

/-- At this time of a history a pass was registered, and later its name was not registered again. -/
structure IsLatest (history : List Registration) (time : ℕ) (p : Registration) : Prop where
  registered : history[time]? = some p
  kept : ∀ later q, time < later → history[later]? = some q → q.name ≠ p.name

lemma IsLatest.mem {history : List Registration} {time : ℕ} {p : Registration}
    (h : IsLatest history time p) : p ∈ history := List.mem_of_getElem? h.registered

lemma IsLatest.unique {history : List Registration} {time time' : ℕ} {p p' : Registration}
    (h : IsLatest history time p) (h' : IsLatest history time' p') (hname : p.name = p'.name) :
    time = time' ∧ p = p' := by
  have htime : time = time' := by
    rcases Nat.lt_trichotomy time time' with hlt | heq | hgt
    · exact absurd hname.symm (h.kept time' p' hlt h'.registered)
    · exact heq
    · exact absurd hname (h'.kept time p hgt h.registered)
  subst htime
  exact ⟨rfl, Option.some.inj (h.registered.symm.trans h'.registered)⟩

lemma isLatest_concat {history : List Registration} {p q : Registration} {time : ℕ} :
    IsLatest (history ++ [p]) time q ↔
      IsLatest history time q ∧ q.name ≠ p.name ∨ time = history.length ∧ q = p := by
  have hlast : (history ++ [p])[history.length]? = some p := by simp
  constructor
  · intro h
    rcases Nat.lt_trichotomy time history.length with hlt | rfl | hgt
    · refine .inl ⟨⟨?_, fun later q' hlater hq' => ?_⟩, (h.kept _ p hlt hlast).symm⟩
      · rw [← h.registered, List.getElem?_append_left hlt]
      · have hbound : later < history.length := (List.getElem?_eq_some_iff.mp hq').1
        exact h.kept later q' hlater (by rw [List.getElem?_append_left hbound, hq'])
    · exact .inr ⟨rfl, (Option.some.inj (hlast.symm.trans h.registered)).symm⟩
    · have hbound := (List.getElem?_eq_some_iff.mp h.registered).1
      rw [List.length_append, List.length_singleton] at hbound
      omega
  · rintro (⟨h, hne⟩ | ⟨rfl, rfl⟩)
    · have hlt : time < history.length := (List.getElem?_eq_some_iff.mp h.registered).1
      refine ⟨by rw [List.getElem?_append_left hlt, h.registered], fun later q' hlater hq' => ?_⟩
      rcases Nat.lt_or_ge later history.length with hbound | hbound
      · rw [List.getElem?_append_left hbound] at hq'
        exact h.kept later q' hlater hq'
      · rw [List.getElem?_append_right hbound, List.getElem?_singleton] at hq'
        split at hq'
        · obtain rfl : p = q' := Option.some.inj hq'
          exact hne.symm
        · cases hq'
    · refine ⟨hlast, fun later q' hlater hq' => ?_⟩
      have hbound := (List.getElem?_eq_some_iff.mp hq').1
      rw [List.length_append, List.length_singleton] at hbound
      omega

lemma exists_isLatest {history : List Registration} {p : Registration} (hp : p ∈ history) :
    ∃ time q, IsLatest history time q ∧ q.name = p.name := by
  induction history using List.reverseRecOn with
  | nil => cases hp
  | append_singleton history r ih =>
    by_cases hname : r.name = p.name
    · exact ⟨history.length, r, isLatest_concat.mpr (.inr ⟨rfl, rfl⟩), hname⟩
    · have hmem : p ∈ history := by
        rcases List.mem_append.mp hp with hp | hp
        · exact hp
        · exact absurd (congrArg Registration.name (List.mem_singleton.mp hp)).symm hname
      obtain ⟨time, q, hq, hqp⟩ := ih hmem
      exact ⟨time, q, isLatest_concat.mpr (.inl ⟨hq, hqp ▸ Ne.symm hname⟩), hqp⟩

/-! ### Listings -/

namespace Registry

/-- The registry lists the latest registrations of a history in the order of their times. -/
def Lists (r : Registry) (history : List Registration) : Prop :=
  ∃ stamped : List (ℕ × Registration), stamped.map Prod.snd = r.passes ∧
    stamped.Pairwise (fun e e' => e.1 < e'.1) ∧
    ∀ e, e ∈ stamped ↔ IsLatest history e.1 e.2

lemma lists_empty : ({} : Registry).Lists [] :=
  ⟨[], rfl, .nil, fun e => ⟨fun h => (by cases h), fun h => (by cases h.registered)⟩⟩

lemma Lists.register {r : Registry} {history : List Registration} (h : r.Lists history)
    (p : Registration) : (r.register p).Lists (history ++ [p]) := by
  obtain ⟨stamped, hpasses, hsorted, hlatest⟩ := h
  refine ⟨stamped.filter (·.2.name != p.name) ++ [(history.length, p)], ?_, ?_, fun e => ?_⟩
  · rw [List.map_append, Registry.register, ← hpasses, List.filter_map]
    rfl
  · refine List.pairwise_append.mpr ⟨hsorted.filter _, List.pairwise_singleton _ _, ?_⟩
    intro e he e' he'
    rw [List.mem_singleton.mp he']
    have hregistered := ((hlatest e).mp (List.mem_filter.mp he).1).registered
    exact (List.getElem?_eq_some_iff.mp hregistered).1
  · rw [isLatest_concat, ← hlatest, List.mem_append, List.mem_filter, List.mem_singleton,
      Prod.ext_iff, bne_iff_ne]

/-- **What is listed** after any registrations. -/
lemma Lists.foldl {r : Registry} {history : List Registration} (h : r.Lists history)
    (ps : List Registration) : (ps.foldl Registry.register r).Lists (history ++ ps) := by
  induction ps generalizing r history with
  | nil => rwa [List.append_nil]
  | cons p ps ih =>
    rw [List.foldl_cons, ← List.singleton_append, ← List.append_assoc]
    exact ih (h.register p)

section

variable {r : Registry} {history : List Registration} (h : r.Lists history)

include h

lemma Lists.mem_passes_iff {p : Registration} :
    p ∈ r.passes ↔ ∃ time, IsLatest history time p := by
  obtain ⟨stamped, hpasses, -, hlatest⟩ := h
  rw [← hpasses, List.mem_map]
  constructor
  · rintro ⟨e, he, rfl⟩
    exact ⟨e.1, (hlatest e).mp he⟩
  · rintro ⟨time, hp⟩
    exact ⟨(time, p), (hlatest _).mpr hp, rfl⟩

lemma Lists.nodup_names : (r.passes.map Registration.name).Nodup := by
  obtain ⟨stamped, hpasses, hsorted, hlatest⟩ := h
  rw [← hpasses, List.map_map, List.Nodup, List.pairwise_map]
  refine hsorted.imp_of_mem fun {e e'} he he' hlt hname => ?_
  have hsame := ((hlatest e).mp he).unique ((hlatest e').mp he') hname
  exact Nat.ne_of_lt hlt hsame.1

/-- Although the first registration of a name in the list is taken, it is the latest. -/
lemma Lists.find?_eq_some_iff {name : String} {p : Registration} :
    r.find? name = some p ↔ p.name = name ∧ ∃ time, IsLatest history time p := by
  rw [← h.mem_passes_iff]
  exact (find?_key_eq_some_iff h.nodup_names).trans and_comm

lemma Lists.find?_eq_none_iff {name : String} :
    r.find? name = none ↔ ∀ p ∈ history, p.name ≠ name := by
  constructor
  · intro hnone p hp hname
    obtain ⟨time, q, hq, hqp⟩ := exists_isLatest hp
    rw [h.find?_eq_some_iff.mpr ⟨hqp.trans hname, time, hq⟩] at hnone
    cases hnone
  · intro hnever
    cases hfind : r.find? name with
    | none => rfl
    | some p =>
      obtain ⟨hname, time, hp⟩ := h.find?_eq_some_iff.mp hfind
      exact absurd hname (hnever p hp.mem)

end

end Registry

/-! ### Building passes -/

/-- What comes of an entry after a history of registrations. -/
inductive Created (history : List Registration) (e : Entry) : Except Error Pass → Prop
  /-- The latest registration of its name is given its options as they are. -/
  | built {time : ℕ} {p : Registration} (latest : IsLatest history time p)
    (named : p.name = e.name) : Created history e (p.factory ⟨e.name, e.options⟩)
  | unknown (never : ∀ p ∈ history, p.name ≠ e.name) :
    Created history e (.error (.unknownPass e.name))

namespace Registry

lemma Lists.create_eq_iff {r : Registry} {history : List Registration} (h : r.Lists history)
    {e : Entry} {result : Except Error Pass} :
    r.create e = result ↔ Created history e result := by
  constructor
  · rintro rfl
    rw [create]
    cases hfind : r.find? e.name with
    | none => exact .unknown (h.find?_eq_none_iff.mp hfind)
    | some p =>
      obtain ⟨hname, time, hp⟩ := h.find?_eq_some_iff.mp hfind
      exact .built hp hname
  · rintro (⟨hp, hname⟩ | hnever)
    · rw [create, h.find?_eq_some_iff.mpr ⟨hname, _, hp⟩]
    · rw [create, h.find?_eq_none_iff.mpr hnever]

/-- A registry is what its history of registrations makes of it. -/
structure Consistent (r : Registry) (history : List Registration) : Prop where
  nodup : (r.passes.map Registration.name).Nodup
  listed : r.Lists history
  create_iff : ∀ e result, r.create e = result ↔ Created history e result
  /-- A pass is unknown if its name was never registered, unless the factory says so that was
  registered for it. -/
  unknown_iff : ∀ e : Entry,
    (∀ p ∈ history, p.name = e.name →
      p.factory ⟨e.name, e.options⟩ ≠ .error (.unknownPass e.name)) →
      (r.create e = .error (.unknownPass e.name) ↔ ∀ p ∈ history, p.name ≠ e.name)
  /-- One more registration leaves the entries of other names, and their order. -/
  others : ∀ p, (r.register p).passes.filter (·.name != p.name) =
    r.passes.filter (·.name != p.name)
  create_others : ∀ p e, e.name ≠ p.name → (r.register p).create e = r.create e

lemma Lists.consistent {r : Registry} {history : List Registration} (h : r.Lists history) :
    r.Consistent history where
  nodup := h.nodup_names
  listed := h
  create_iff _ _ := h.create_eq_iff
  unknown_iff e hfactories := by
    constructor
    · intro hunknown p hp hname
      obtain ⟨time, q, hq, hqp⟩ := exists_isLatest hp
      have hbuilt := h.create_eq_iff.mpr (.built hq (hqp.trans hname))
      exact hfactories q hq.mem (hqp.trans hname) (hbuilt.symm.trans hunknown)
    · exact fun hnever => h.create_eq_iff.mpr (.unknown hnever)
  others p := by
    rw [Registry.register, List.filter_append, List.filter_filter]
    simp
  create_others p e hne := by
    rw [create, create, find?_register, if_neg hne.symm]

/-- The registrations of the passes of this library. -/
def builtins : List Registration :=
  [⟨"print-ir", Pass.printIr {} |>.description, buildPrintIr⟩,
    ⟨"strip-debuginfo", Pass.stripDebugInfo.description, buildStripDebugInfo⟩]

lemma builtin_eq : builtin = ofRegistrations builtins := rfl

end Registry

/-- **Registries stay consistent when names are registered again**, whether they start empty or
with the passes of this library: each name is listed once and in the order of the latest
registrations, an entry is built by the latest registration of its name or is unknown if there is
none, and a registration leaves all other names alone. -/
theorem registrations_consistent (ps : List Registration) :
    (Registry.ofRegistrations ps).Consistent ps ∧
      (ps.foldl Registry.register .builtin).Consistent (Registry.builtins ++ ps) := by
  have hempty (ps : List Registration) : (Registry.ofRegistrations ps).Lists ps :=
    Registry.lists_empty.foldl ps
  refine ⟨(hempty ps).consistent, ?_⟩
  rw [Registry.builtin_eq]
  exact ((hempty Registry.builtins).foldl ps).consistent

end OpTree.Pipeline
