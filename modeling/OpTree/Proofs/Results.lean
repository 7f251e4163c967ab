import Mathlib.Data.List.Forall2

/-!
Computations that can fail: what it says of their parts that there is a result, or none.
-/

namespace OpTree

variable {α β γ δ : Type}

section

variable {r : Except γ α}

lemma map_eq_ok {f : α → β} {y : β} (h : f <$> r = .ok y) : ∃ x, r = .ok x ∧ f x = y := by
  cases r with
  | error e => cases h
  | ok x => exact ⟨x, rfl, Except.ok.inj h⟩

lemma bind_eq_ok {f : α → Except γ β} {y : β} (h : r >>= f = .ok y) :
    ∃ x, r = .ok x ∧ f x = .ok y := by
  cases r with
  | error e => cases h
  | ok x => exact ⟨x, rfl, h⟩

lemma bind_eq_ok_iff {f : α → Except γ β} {y : β} :
    r >>= f = .ok y ↔ ∃ x, r = .ok x ∧ f x = .ok y := by
  refine ⟨bind_eq_ok, ?_⟩
  rintro ⟨x, rfl, h⟩
  exact h

lemma mapError_eq_ok_iff {f : γ → δ} {x : α} : r.mapError f = .ok x ↔ r = .ok x := by
  cases r <;> simp [Except.mapError]

lemma mapError_eq_error_iff {f : γ → δ} {e : δ} :
    r.mapError f = .error e ↔ ∃ c, r = .error c ∧ e = f c := by
  cases r <;> simp [Except.mapError, eq_comm]

end

/-! ### Lists -/

lemma mapM_eq_ok_iff {f : α → Except γ β} {l : List α} {ys : List β} :
    l.mapM f = .ok ys ↔ List.Forall₂ (fun x y => f x = .ok y) l ys := by
  induction l generalizing ys with
  | nil =>
    rw [List.forall₂_nil_left_iff]
    exact ⟨fun h => (Except.ok.inj h).symm, fun h => h ▸ rfl⟩
  | cons x l ih =>
    simp only [List.mapM_cons, bind_eq_ok_iff, List.forall₂_cons_left_iff, ih]
    constructor
    · rintro ⟨y, hy, ys', hys, h⟩
      exact ⟨y, ys', hy, hys, (Except.ok.inj h).symm⟩
    · rintro ⟨y, ys', hy, hys, rfl⟩
      exact ⟨y, hy, ys', hys, rfl⟩

/-- Either there are results for all items, or the first item without one says why. -/
lemma mapM_cases (f : α → Except γ β) (l : List α) :
    (∃ ys, l.mapM f = .ok ys ∧ List.Forall₂ (fun x y => f x = .ok y) l ys) ∨
      ∃ before x after e, l = before ++ x :: after ∧ (∀ d ∈ before, ∃ y, f d = .ok y) ∧
        f x = .error e ∧ l.mapM f = .error e := by
  induction l with
  | nil => exact .inl ⟨[], rfl, .nil⟩
  | cons a l ih =>
    cases ha : f a with
    | error e => exact .inr ⟨[], a, l, e, rfl, by simp, ha, by rw [List.mapM_cons, ha]; rfl⟩
    | ok y =>
      rcases ih with ⟨ys, hys, hall⟩ | ⟨before, x, after, e, rfl, hbefore, hx, he⟩
      · exact .inl ⟨y :: ys, by rw [List.mapM_cons, ha, hys]; rfl, .cons ha hall⟩
      · refine .inr ⟨a :: before, x, after, e, rfl, ?_, hx, by rw [List.mapM_cons, ha, he]; rfl⟩
        intro d hd
        rcases List.mem_cons.mp hd with rfl | hd
        · exact ⟨y, ha⟩
        · exact hbefore d hd

end OpTree
