import OpTree.Data.OrderedMap
import OpTree.Proofs.FirstOccurrence

/-!
What a map from names knows after values were entered: the value of each name, the names in the
order in which they were first entered, and the pairs.
-/

namespace OpTree.Data.OrderedMap

variable {α : Type}

/-! ### The value of a name -/

lemma get?_eq_some_iff {m : OrderedMap α} {key : String} {value : α} :
    m.get? key = some value ↔ (key, value) ∈ m.entries := by
  simp only [get?, Option.map_eq_some_iff, find?_key_eq_some_iff m.nodup]
  constructor
  · rintro ⟨⟨k, v⟩, ⟨hmem, rfl⟩, rfl⟩
    exact hmem
  · intro hmem
    exact ⟨(key, value), ⟨hmem, rfl⟩, rfl⟩

lemma isSome_get?_iff {m : OrderedMap α} {key : String} :
    (m.get? key).isSome ↔ key ∈ m.keys := by
  rw [Option.isSome_iff_exists, keys, List.mem_map]
  constructor
  · rintro ⟨v, hv⟩
    exact ⟨(key, v), get?_eq_some_iff.mp hv, rfl⟩
  · rintro ⟨⟨k, v⟩, hmem, rfl⟩
    exact ⟨v, get?_eq_some_iff.mpr hmem⟩

lemma get?_insert (m : OrderedMap α) (key : String) (value : α) (k : String) :
    (m.insert key value).get? k = if k = key then some value else m.get? k := by
  have hentries : (m.insert key value).entries = upsert key value m.entries := rfl
  rw [get?, get?, hentries]
  induction m.entries with
  | nil => by_cases hk : k = key <;> simp [upsert, hk, Ne.symm]
  | cons e l ih =>
    obtain ⟨k', v⟩ := e
    rw [upsert]
    split
    · rename_i hkey
      subst hkey
      by_cases hk : k = k' <;> simp [hk, Ne.symm]
    · rename_i hne
      by_cases hk' : k' = k
      · subst hk'
        simp [hne]
      · simpa [hk'] using ih

/-! ### The names -/

lemma keys_insert (m : OrderedMap α) (key : String) (value : α) :
    (m.insert key value).keys = noteOnce m.keys key :=
  map_fst_upsert key value m.entries

/-! ### The pairs -/

lemma eq_of_entries {m m' : OrderedMap α} (h : m.entries = m'.entries) : m = m' := by
  cases m
  cases m'
  simpa using h

lemma upsert_of_not_mem {key : String} {value : α} {l : List (String × α)}
    (h : key ∉ l.map Prod.fst) : upsert key value l = l ++ [(key, value)] := by
  induction l with
  | nil => rfl
  | cons e l ih =>
    rw [List.map_cons, List.mem_cons, not_or] at h
    rw [upsert, if_neg (Ne.symm h.1), ih h.2, List.cons_append]

lemma entries_foldl_insert (l : List (String × α)) (m : OrderedMap α)
    (h : ((m.entries ++ l).map Prod.fst).Nodup) :
    (l.foldl (fun m e => m.insert e.1 e.2) m).entries = m.entries ++ l := by
  induction l generalizing m with
  | nil => simp
  | cons e l ih =>
    have hnew : e.1 ∉ m.entries.map Prod.fst := by
      rw [List.map_append, List.nodup_append] at h
      exact fun hmem => h.2.2 _ hmem _ (by simp) rfl
    have hentries : (m.insert e.1 e.2).entries = m.entries ++ [e] := upsert_of_not_mem hnew
    rw [List.foldl_cons, ih _ (by simpa [hentries] using h), hentries, List.append_assoc,
      List.singleton_append]

lemma entries_ofList {l : List (String × α)} (h : (l.map Prod.fst).Nodup) :
    (ofList l).entries = l := by
  have hentries := entries_foldl_insert l .empty (by simpa [empty] using h)
  rwa [empty, List.nil_append] at hentries

lemma ofList_entries (m : OrderedMap α) : ofList m.entries = m :=
  eq_of_entries (entries_ofList m.nodup)

lemma mem_upsert {key : String} {value : α} {l : List (String × α)} {e : String × α}
    (h : e ∈ upsert key value l) : e ∈ l ∨ e.2 = value := by
  induction l with
  | nil => exact .inr (by simpa [upsert] using congrArg Prod.snd (List.mem_singleton.mp h))
  | cons p l ih =>
    rw [upsert] at h
    split at h
    · rcases List.mem_cons.mp h with rfl | h
      · exact .inr rfl
      · exact .inl (.tail _ h)
    · rcases List.mem_cons.mp h with rfl | h
      · exact .inl (.head _)
      · exact (ih h).imp_left (.tail _)

lemma mem_foldl_insert {l : List (String × α)} {m : OrderedMap α} {e : String × α}
    (h : e ∈ (l.foldl (fun m e => m.insert e.1 e.2) m).entries) :
    e ∈ m.entries ∨ ∃ p ∈ l, e.2 = p.2 := by
  induction l generalizing m with
  | nil => exact .inl h
  | cons p l ih =>
    rcases ih h with h | ⟨q, hq, he⟩
    · exact (mem_upsert h).imp_right fun he => ⟨p, .head _, he⟩
    · exact .inr ⟨q, .tail _ hq, he⟩

lemma exists_of_mem_ofList {l : List (String × α)} {e : String × α}
    (h : e ∈ (ofList l).entries) : ∃ p ∈ l, e.2 = p.2 :=
  (mem_foldl_insert h).resolve_left (by simp [empty])

end OpTree.Data.OrderedMap
