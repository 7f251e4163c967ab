import OpTree.Print.Names
import OpTree.Proofs.Legible

/-!
The names of values are words behind a sign, and no two definitions have the same one. So an id can
be taken from one program to another by its name.
-/

namespace OpTree.Print

open OpTree.IR OpTree.Text

/-- The name of a value begins with a sign, and a word follows. -/
def IsValueName (s : String) : Prop :=
  ∃ w, s.toList = '%' :: w ∧ ∀ c ∈ w, isWordChar c = true

lemma tells_valueName {s t : String} (hs : IsValueName s) (ht : IsValueName t) :
    Tells (s = t) s.toList t.toList := by
  obtain ⟨w, hw, hword⟩ := hs
  obtain ⟨w', hw', hword'⟩ := ht
  rw [← String.toList_inj, hw, hw']
  exact (tells_word hword hword').cons.imp (congrArg _)

lemma exists_valueName_ne {s : String} (hs : IsValueName s) {d : Char} (hd : d ≠ '%') :
    ∃ c r, s.toList = c :: r ∧ c ≠ d := by
  obtain ⟨w, hw, -⟩ := hs
  exact ⟨'%', w, hw, hd.symm⟩

/-! ### Numbered definitions -/

lemma exists_of_mem_numbered {n k : ℕ} {ds : List Definition} :
    ∀ e ∈ numbered n k ds, (∃ i, n ≤ i ∧ e.2 = "%" ++ toString i) ∨
      ∃ j, k ≤ j ∧ e.2 = "%arg" ++ toString j := by
  induction ds generalizing n k with
  | nil => simp [numbered]
  | cons d ds ih =>
    cases d <;> simp only [numbered, List.forall_mem_cons]
    · refine ⟨.inl ⟨n, le_refl n, rfl⟩, fun e he => ?_⟩
      rcases ih e he with ⟨i, hi, he⟩ | ⟨j, hj, he⟩
      · exact .inl ⟨i, by omega, he⟩
      · exact .inr ⟨j, hj, he⟩
    · refine ⟨.inr ⟨k, le_refl k, rfl⟩, fun e he => ?_⟩
      rcases ih e he with ⟨i, hi, he⟩ | ⟨j, hj, he⟩
      · exact .inl ⟨i, hi, he⟩
      · exact .inr ⟨j, by omega, he⟩

lemma isValueName_of_mem_numbered {n k : ℕ} {ds : List Definition} :
    ∀ e ∈ numbered n k ds, IsValueName e.2 := by
  have hdigits (i : ℕ) : ∀ c ∈ (toString i).toList, isWordChar c = true := by
    rw [toList_toString_nat]
    exact fun c hc => isWordChar_of_isDigit (isDigit_of_mem_toDigits c hc)
  intro e he
  rcases exists_of_mem_numbered e he with ⟨i, -, he⟩ | ⟨j, -, he⟩ <;> rw [he]
  · exact ⟨(toString i).toList, String.toList_append, hdigits i⟩
  · have hletters : ∀ c ∈ ['a', 'r', 'g'], isWordChar c = true :=
      List.all_iff_forall_prop.mp (by decide)
    refine ⟨['a', 'r', 'g'] ++ (toString j).toList, String.toList_append, fun c hc => ?_⟩
    rcases List.mem_append.mp hc with hc | hc
    · exact hletters c hc
    · exact hdigits j c hc

lemma result_ne_argument (i j : ℕ) : "%" ++ toString i ≠ "%arg" ++ toString j := by
  intro h
  rw [← String.toList_inj, String.toList_append, String.toList_append, toList_toString_nat] at h
  have htail : Nat.toDigits 10 i = 'a' :: 'r' :: 'g' :: (toString j).toList := (List.cons.inj h).2
  have hmem : 'a' ∈ Nat.toDigits 10 i := by
    rw [htail]
    exact .head _
  exact absurd (isDigit_of_mem_toDigits _ hmem) (by decide)

/-- **No two definitions have the same name.** -/
theorem nodup_numbered (n k : ℕ) (ds : List Definition) :
    ((numbered n k ds).map Prod.snd).Nodup := by
  induction ds generalizing n k with
  | nil => exact List.nodup_nil
  | cons d ds ih =>
    cases d <;> simp only [numbered, List.map_cons, List.nodup_cons]
    · refine ⟨fun hmem => ?_, ih (n + 1) k⟩
      obtain ⟨e, he, heq⟩ := List.mem_map.mp hmem
      rcases exists_of_mem_numbered e he with ⟨i, hi, he⟩ | ⟨j, -, he⟩
      · have hin := toString_nat_inj ((String.append_right_inj _).mp (he.symm.trans heq))
        omega
      · exact result_ne_argument n j (heq.symm.trans he)
    · refine ⟨fun hmem => ?_, ih n (k + 1)⟩
      obtain ⟨e, he, heq⟩ := List.mem_map.mp hmem
      rcases exists_of_mem_numbered e he with ⟨i, -, he⟩ | ⟨j, hj, he⟩
      · exact result_ne_argument i k (he.symm.trans heq)
      · have hjk := toString_nat_inj ((String.append_right_inj _).mp (he.symm.trans heq))
        omega

/-! ### Names of a program -/

namespace Names

/-- Definitions are named like values, and no two alike. -/
structure Proper (n : Names) : Prop where
  names : ∀ e ∈ n.entries, IsValueName e.2
  nodup : (n.entries.map Prod.snd).Nodup

lemma proper_ofOperation (root : Operation) : (ofOperation root).Proper :=
  ⟨isValueName_of_mem_numbered, nodup_numbered 0 0 _⟩

def Covers (n : Names) (vs : List Value) : Prop := ∀ v ∈ vs, v.id ∈ n.entries.map Prod.fst

lemma exists_entry_of_mem {n : Names} {v : Value} (hv : v.id ∈ n.entries.map Prod.fst) :
    ∃ e ∈ n.entries, e.1 = v.id ∧ n.find? v.id = some e.2 ∧ n.name v = e.2 := by
  obtain ⟨e, he, hid⟩ := List.mem_map.mp hv
  have hsome : (n.entries.find? (·.1 = v.id)).isSome := by
    rw [List.find?_isSome]
    exact ⟨e, he, by simp [hid]⟩
  obtain ⟨e', he'⟩ := Option.isSome_iff_exists.mp hsome
  have hfind : n.find? v.id = some e'.2 := by rw [find?, he', Option.map_some]
  refine ⟨e', List.mem_of_find?_eq_some he', ?_, hfind, by rw [name, hfind, Option.getD_some]⟩
  simpa using List.find?_some he'

lemma Proper.isValueName {n : Names} (hn : n.Proper) {vs : List Value} (hvs : n.Covers vs) :
    ∀ s ∈ vs.map n.name, IsValueName s := by
  intro s hs
  obtain ⟨v, hv, rfl⟩ := List.mem_map.mp hs
  obtain ⟨e, he, -, -, hname⟩ := exists_entry_of_mem (hvs v hv)
  rw [hname]
  exact hn.names e he

/-- Values of the same name are taken to each other. -/
def Transfers (f : ValueId → ValueId) (n m : Names) : Prop :=
  ∀ v w : Value, v.id ∈ n.entries.map Prod.fst → w.id ∈ m.entries.map Prod.fst →
    n.name v = m.name w → f v.id = w.id

/-- The id that has in `m` the name that the given one has in `n`. -/
def transfer (n m : Names) (i : ValueId) : ValueId :=
  ((m.entries.find? fun e => n.find? i = some e.2).map Prod.fst).getD i

lemma Proper.transfers_transfer {m : Names} (hm : m.Proper) (n : Names) :
    Transfers (transfer n m) n m := by
  intro v w hv hw hname
  obtain ⟨e, -, -, hfind, hv⟩ := exists_entry_of_mem hv
  obtain ⟨e', he', hid, -, hw⟩ := exists_entry_of_mem hw
  have hsome : (m.entries.find? fun e => n.find? v.id = some e.2).isSome := by
    rw [List.find?_isSome]
    exact ⟨e', he', by simp [hfind, ← hv, ← hw, hname]⟩
  obtain ⟨e'', he''⟩ := Option.isSome_iff_exists.mp hsome
  have hsame : e.2 = e''.2 := by simpa [hfind] using List.find?_some he''
  have hnames : e''.2 = e'.2 := by rw [← hsame, ← hv, hname, hw]
  have heq : e'' = e' :=
    List.inj_on_of_nodup_map hm.nodup (List.mem_of_find?_eq_some he'') he' hnames
  rw [transfer, he'', Option.map_some, Option.getD_some, heq, hid]

end Names

end OpTree.Print
