import OpTree.World.FileTree
import Mathlib.Data.List.Basic

/-!
Places in a tree of files: what putting something at a place does, when a path leads to a place,
and what opening and writing a file there does. A path leads to the same place as long as no
directory comes or goes.
-/

namespace OpTree

open OpTree.World

namespace World.FileTree

/-! ### Putting -/

lemma find?_replaced (l : List (Place × Node)) (p q : Place) (n : Node) :
    ((l.map fun e => if e.1 == p then (p, n) else e).find? (·.1 == q)).map Prod.snd =
      if q = p ∧ l.any (·.1 == p) then some n else (l.find? (·.1 == q)).map Prod.snd := by
  induction l with
  | nil => simp
  | cons e l ih =>
    by_cases hp : e.1 = p
    · have hany : (e :: l).any (·.1 == p) = true := by simp [hp]
      have hnew : (if e.1 == p then (p, n) else e) = (p, n) := by simp [hp]
      rw [List.map_cons, hnew, hany]
      by_cases hq : q = p
      · rw [List.find?_cons_of_pos (by simp [hq]), if_pos ⟨hq, rfl⟩]
        rfl
      · have hpq : ¬ p = q := fun h => hq h.symm
        rw [List.find?_cons_of_neg (by simpa using hpq), ih, List.find?_cons_of_neg (by simpa [hp]),
          if_neg (fun h => hq h.1), if_neg (fun h => hq h.1)]
    · have hany : (e :: l).any (·.1 == p) = l.any (·.1 == p) := by simp [hp]
      have hold : (if e.1 == p then (p, n) else e) = e := by simp [hp]
      rw [List.map_cons, hold, hany]
      by_cases hq : e.1 = q
      · have hqp : ¬ q = p := fun h => hp (hq.trans h)
        rw [List.find?_cons_of_pos (by simpa using hq), List.find?_cons_of_pos (by simpa using hq),
          if_neg (fun h => hqp h.1)]
      · rw [List.find?_cons_of_neg (by simpa using hq), ih,
          List.find?_cons_of_neg (by simpa using hq)]

lemma node?_put (t : FileTree) {p : Place} (hp : p ≠ []) (n : Node) (q : Place) :
    (t.put p n).node? q = if q = p then some n else t.node? q := by
  by_cases hq : q = []
  · have hne : q ≠ p := fun h => hp (h.symm.trans hq)
    simp [node?, hq, hq ▸ hne]
  unfold put node?
  rw [if_neg hq, if_neg hq]
  -- an entry for the place is replaced where it stands, else one is added at the end
  by_cases hany : t.nodes.any (·.1 == p) = true
  · rw [if_pos hany, find?_replaced, hany]
    simp
  · rw [if_neg hany, List.find?_append]
    by_cases hqp : q = p
    · have hnone : t.nodes.find? (·.1 == p) = none := by
        rw [← Option.not_isSome_iff_eq_none, List.find?_isSome]
        rwa [List.any_eq_true] at hany
      rw [hqp, hnone]
      simp
    · have hpq : ¬ p = q := fun h => hqp h.symm
      simp [hqp, hpq]

lemma home_put (t : FileTree) (p : Place) (n : Node) : (t.put p n).home = t.home := by
  unfold put
  split <;> rfl

lemma walk_cons_eq_ok {t : FileTree} {d p : Place} {c : String} {cs : List String} :
    t.walk d (c :: cs) = .ok p ↔
      ∃ d', step d c = .ok d' ∧ t.node? d' = some .directory ∧ t.walk d' cs = .ok p := by
  rw [walk]
  cases hstep : step d c with
  | error e => simp [bind, Except.bind]
  | ok d' =>
    simp only [bind, Except.bind, Except.ok.injEq, exists_eq_left']
    cases hnode : t.node? d' with
    | none => simp
    | some n => cases n <;> simp

/-- The name of something that is in a directory, and not of the directory or one above it. -/
def IsProper (path : Path) (c : String) : Prop :=
  ¬ (path.trailingSlash || c = "." || c = "..") = true

lemma IsProper.step_eq_ok {path : Path} {c : String} (hc : IsProper path c) {d p : Place}
    (h : step d c = .ok p) : p = d ++ [c] := by
  have hdots : ¬ c = "." ∧ ¬ c = ".." := by
    simp only [IsProper, Bool.or_eq_true, decide_eq_true_iff, not_or] at hc
    exact ⟨hc.1.2, hc.2⟩
  unfold step at h
  rw [if_neg hdots.1, if_neg hdots.2] at h
  split at h
  · cases h
  · exact (Except.ok.inj h).symm

/-- When a path leads to a place: its last part names something in a directory that is no
directory. -/
lemma target_eq_ok {t : FileTree} {s : String} {p : Place} :
    t.target s = .ok p ↔ ∃ path parent c, parse s = .ok path ∧
      t.walk (t.origin path) path.components.dropLast = .ok parent ∧
      path.components.getLast? = some c ∧ IsProper path c ∧
      step parent c = .ok p ∧ t.node? p ≠ some .directory := by
  unfold target IsProper
  cases parse s with
  | error e => simp [bind, Except.bind]
  | ok path =>
    cases hwalk : t.walk (t.origin path) path.components.dropLast with
    | error e => simp [bind, Except.bind, hwalk]
    | ok parent =>
      cases hlast : path.components.getLast? with
      | none => simp [bind, Except.bind, hwalk, hlast]
      | some c =>
        simp only [bind, Except.bind, hwalk, hlast, Except.ok.injEq, Option.some.injEq,
          exists_eq_left', exists_and_left]
        by_cases hc : (path.trailingSlash || c = "." || c = "..") = true
        · rw [if_pos hc]
          simp [hc]
        · rw [if_neg hc]
          cases step parent c with
          | error e => simp
          | ok q =>
            simp only [Except.ok.injEq]
            by_cases hq : t.node? q = some .directory
            · rw [if_pos hq]
              exact iff_of_false nofun fun ⟨_, h, hp⟩ => hp (h ▸ hq)
            · rw [if_neg hq, Except.ok.injEq]
              exact ⟨fun h => ⟨hc, h, h ▸ hq⟩, fun h => h.2.1⟩

/-- The trees have one working directory and the same directories. -/
structure SameDirectories (t t' : FileTree) : Prop where
  home : t'.home = t.home
  directory : ∀ p, t'.node? p = some .directory ↔ t.node? p = some .directory

namespace SameDirectories

variable {t t' : FileTree} (h : SameDirectories t t')

include h

lemma symm : SameDirectories t' t := ⟨h.home.symm, fun p => (h.directory p).symm⟩

lemma walk_eq_ok {d p : Place} {cs : List String} (hwalk : t.walk d cs = .ok p) :
    t'.walk d cs = .ok p := by
  induction cs generalizing d with
  | nil => exact hwalk
  | cons c cs ih =>
    obtain ⟨d', hstep, hd', hwalk⟩ := walk_cons_eq_ok.mp hwalk
    exact walk_cons_eq_ok.mpr ⟨d', hstep, (h.directory d').mpr hd', ih hwalk⟩

lemma target_eq_ok_of {s : String} {p : Place} (htarget : t.target s = .ok p) :
    t'.target s = .ok p := by
  obtain ⟨path, parent, c, hparse, hwalk, hlast, hc, hstep, hp⟩ := target_eq_ok.mp htarget
  have horigin : t'.origin path = t.origin path := by
    unfold origin
    rw [h.home]
  refine target_eq_ok.mpr ⟨path, parent, c, hparse, ?_, hlast, hc, hstep, ?_⟩
  · rw [horigin]
    exact h.walk_eq_ok hwalk
  · rwa [ne_eq, h.directory]

lemma target_eq_ok {s : String} {p : Place} : t'.target s = .ok p ↔ t.target s = .ok p :=
  ⟨h.symm.target_eq_ok_of, h.target_eq_ok_of⟩

end SameDirectories

lemma target_ne_nil {t : FileTree} {s : String} {p : Place} (h : t.target s = .ok p) : p ≠ [] := by
  obtain ⟨path, parent, c, -, -, -, hc, hstep, -⟩ := target_eq_ok.mp h
  rw [hc.step_eq_ok hstep]
  simp

/-! ### Opening and writing -/

/-- Nothing but a regular file stands at a place. -/
def Regular (t : FileTree) (p : Place) : Prop := ∀ n, t.node? p = some n → ∃ bs, n = .file bs

lemma regular_empty {p : Place} (hp : p ≠ []) : ({} : FileTree).Regular p := by
  intro n hn
  simp [node?, hp] at hn

lemma create_eq_error {t : FileTree} {s : String} {e : FileError} (h : t.target s = .error e) :
    t.create s = .error e := by
  rw [create, h]
  rfl

lemma create_eq_ok {t : FileTree} {s : String} {p : Place} (h : t.target s = .ok p)
    (hp : t.Regular p) : t.create s = .ok (p, t.put p (.file [])) := by
  rw [create, h]
  cases hnode : t.node? p with
  | none => simp [bind, Except.bind, hnode]
  | some n =>
    obtain ⟨bs, rfl⟩ := hp n hnode
    simp [bind, Except.bind, hnode]

/-- The tree after a file was opened and written. -/
def withContent (t : FileTree) (p : Place) (bs : List UInt8) : FileTree :=
  (t.put p (.file [])).put p (.file bs)

lemma node?_withContent (t : FileTree) {p : Place} (hp : p ≠ []) (bs : List UInt8) (q : Place) :
    (t.withContent p bs).node? q = if q = p then some (.file bs) else t.node? q := by
  rw [withContent, node?_put _ hp, node?_put _ hp]
  split <;> rfl

lemma home_withContent (t : FileTree) (p : Place) (bs : List UInt8) :
    (t.withContent p bs).home = t.home := by
  rw [withContent, home_put, home_put]

end World.FileTree

end OpTree
