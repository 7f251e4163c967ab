import Mathlib.Data.List.Induction
import Mathlib.Data.List.Nodup

/-!
The different elements of a list, each where it first occurs.
-/

namespace OpTree

variable {α β : Type} [DecidableEq β]

lemma eraseDups_concat (l : List β) (a : β) :
    (l ++ [a]).eraseDups = if a ∈ l then l.eraseDups else l.eraseDups ++ [a] := by
  rw [List.eraseDups_append]
  split
  · rename_i hmem
    simp [List.removeAll, hmem]
  · rename_i hnew
    have hkept : [a].removeAll l = [a] := by simp [List.removeAll, hnew]
    rw [hkept, List.eraseDups_cons, List.filter_nil, List.eraseDups_nil]

lemma eraseDups_eq_self {l : List β} (h : l.Nodup) : l.eraseDups = l := by
  induction l with
  | nil => rfl
  | cons a l ih =>
    obtain ⟨ha, hl⟩ := List.nodup_cons.mp h
    have hfilter : l.filter (fun b => !b == a) = l :=
      List.filter_eq_self.mpr fun b hb => by
        have hne : b ≠ a := fun hba => ha (hba ▸ hb)
        simpa using hne
    rw [List.eraseDups_cons, hfilter, ih hl]

/-- **The different elements stand in the order of their first occurrences.** -/
lemma pairwise_eraseDups (l : List β) :
    l.eraseDups.Pairwise fun a b => l.idxOf a < l.idxOf b := by
  induction l using List.reverseRecOn with
  | nil => exact .nil
  | append_singleton l a ih =>
    have hold {b : β} (hb : b ∈ l.eraseDups) : (l ++ [a]).idxOf b = l.idxOf b :=
      List.idxOf_append_of_mem (List.mem_eraseDups.mp hb)
    have hpairs : l.eraseDups.Pairwise fun b c => (l ++ [a]).idxOf b < (l ++ [a]).idxOf c :=
      ih.imp_of_mem fun {b c} hb hc hlt => by rwa [hold hb, hold hc]
    rw [eraseDups_concat]
    split
    · exact hpairs
    · rename_i hnew
      refine List.pairwise_append.mpr ⟨hpairs, List.pairwise_singleton _ _, fun b hb c hc => ?_⟩
      rw [List.mem_singleton.mp hc, hold hb, List.idxOf_append_of_notMem hnew]
      exact Nat.lt_add_right _ (List.idxOf_lt_length_iff.mpr (List.mem_eraseDups.mp hb))

lemma nodup_eraseDups (l : List β) : l.eraseDups.Nodup := by
  refine (pairwise_eraseDups l).imp fun {a b} hlt => ?_
  rintro rfl
  exact Nat.lt_irrefl _ hlt

lemma idxOf_lt_of_eraseDups {l : List β} {a b : β}
    (h : l.eraseDups.idxOf a < l.eraseDups.idxOf b) : l.idxOf a < l.idxOf b := by
  have ha : l.eraseDups.idxOf a < l.eraseDups.length :=
    Nat.lt_of_lt_of_le h List.idxOf_le_length
  by_cases hb : b ∈ l
  · have hlength := List.idxOf_lt_length_iff.mpr (List.mem_eraseDups.mpr hb)
    have hlt := List.pairwise_iff_getElem.mp (pairwise_eraseDups l) _ _ ha hlength h
    rwa [List.getElem_idxOf, List.getElem_idxOf] at hlt
  · rw [List.idxOf_eq_length hb]
    exact List.idxOf_lt_length_iff.mpr (List.mem_eraseDups.mp (List.idxOf_lt_length_iff.mp ha))

/-- What first occurs in lists put together occurs in an earlier list, or in the same list
earlier. -/
lemma findIdx_of_idxOf_flatMap {l : List α} {g : α → List β} {a b : β}
    (h : (l.flatMap g).idxOf a < (l.flatMap g).idxOf b) :
    l.findIdx (a ∈ g ·) < l.findIdx (b ∈ g ·) ∨
      l.findIdx (a ∈ g ·) = l.findIdx (b ∈ g ·) ∧
        ∃ x, l[l.findIdx (a ∈ g ·)]? = some x ∧ (g x).idxOf a < (g x).idxOf b := by
  induction l with
  | nil => exact absurd h (Nat.lt_irrefl _)
  | cons x l ih =>
    rw [List.flatMap_cons, List.idxOf_append, List.idxOf_append] at h
    rw [List.findIdx_cons, List.findIdx_cons]
    by_cases ha : a ∈ g x <;> by_cases hb : b ∈ g x
    · rw [if_pos ha, if_pos hb] at h
      simp [ha, hb, h]
    · simp [ha, hb]
    · rw [if_neg ha, if_pos hb] at h
      have hlt := List.idxOf_lt_length_iff.mpr hb
      omega
    · rw [if_neg ha, if_neg hb] at h
      simpa [ha, hb] using ih (by omega)

lemma find?_key_eq_some_iff {l : List α} {key : α → β} (h : (l.map key).Nodup) {a : α} {k : β} :
    l.find? (key · == k) = some a ↔ a ∈ l ∧ key a = k := by
  constructor
  · intro hfind
    exact ⟨List.mem_of_find?_eq_some hfind, by simpa using List.find?_some hfind⟩
  · rintro ⟨ha, rfl⟩
    obtain ⟨b, hb⟩ : ∃ b, l.find? (key · == key a) = some b :=
      Option.isSome_iff_exists.mp (List.find?_isSome.mpr ⟨a, ha, beq_self_eq_true _⟩)
    have hkey : key b = key a := by simpa using List.find?_some hb
    rw [hb, List.inj_on_of_nodup_map h (List.mem_of_find?_eq_some hb) ha hkey]

/-! ### Noting elements one by one -/

/-- Notes an element at the end, unless it is noted already. -/
def noteOnce (noted : List β) (a : β) : List β := if a ∈ noted then noted else noted ++ [a]

lemma foldl_noteOnce (l l' : List β) :
    l'.foldl noteOnce l.eraseDups = (l ++ l').eraseDups := by
  induction l' generalizing l with
  | nil => rw [List.append_nil, List.foldl_nil]
  | cons a l' ih =>
    have hnote : noteOnce l.eraseDups a = (l ++ [a]).eraseDups := by
      rw [eraseDups_concat, noteOnce]
      simp only [List.mem_eraseDups]
    rw [List.foldl_cons, hnote, ih, List.append_assoc, List.singleton_append]

end OpTree
