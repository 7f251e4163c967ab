import OpTree.Proofs.Results
import OpTree.Proofs.SaveLoad

/-!
What is known of anything that was read. Its parts were read one level further down, a record was
filled field by field, and so types, values, locations and attributes can be written and read again
at the depth at which they were read.
-/

namespace OpTree.Json

open OpTree.Number

namespace Source

section

variable {α ρ : Type} {n : ℕ} {s : Source}

lemma descend_eq_ok {f : Below n (Except Fault α)} {x : α} (h : descend n f = .ok x) :
    ∃ m, ∃ hm : m < n, n = m + 1 ∧ f m hm = .ok x := by
  cases n with
  | zero => cases h
  | succ n => exact ⟨n, Nat.lt_succ_self n, rfl, h⟩

lemma mapM_eq_ok {β : Type} {f : β → Except Fault α} {l : List β} {xs : List α}
    (h : l.mapM f = .ok xs) : ∀ x ∈ xs, ∃ b, f b = .ok x := by
  have hall : List.Forall₂ (fun x b => f b = .ok x) xs l := (mapM_eq_ok_iff.mp h).flip
  exact ((List.forall₂_and_left xs l).mp (hall.imp fun x b hb => ⟨⟨b, hb⟩, hb⟩)).1

lemma readList_eq_ok [FloatReader] {item : Below n (Source → Except Fault α)} {xs : List α}
    (h : readList n item s = .ok xs) :
    ∃ m, ∃ hm : m < n, n = m + 1 ∧ ∀ x ∈ xs, ∃ t, item m hm t = .ok x := by
  unfold readList at h
  split at h
  · obtain ⟨m, hm, hn, h⟩ := descend_eq_ok h
    obtain ⟨ys, hys, h⟩ := bind_eq_ok h
    obtain ⟨-, -, h⟩ := bind_eq_ok h
    cases h
    exact ⟨m, hm, hn, mapM_eq_ok hys⟩
  · cases h

lemma readPairs_eq_ok [FloatReader] {value : Below n (Source → Except Fault α)}
    {es : List (String × α)} (h : readPairs n value s = .ok es) :
    ∃ m, ∃ hm : m < n, n = m + 1 ∧ ∀ e ∈ es, ∃ t, value m hm t = .ok e.2 := by
  unfold readPairs at h
  split at h
  · obtain ⟨m, hm, hn, h⟩ := descend_eq_ok h
    obtain ⟨ys, hys, h⟩ := bind_eq_ok h
    obtain ⟨-, -, h⟩ := bind_eq_ok h
    cases h
    refine ⟨m, hm, hn, fun e he => ?_⟩
    obtain ⟨b, hb⟩ := mapM_eq_ok hys e he
    obtain ⟨k, -, hb⟩ := bind_eq_ok hb
    obtain ⟨v, hv, hb⟩ := bind_eq_ok hb
    cases hb
    exact ⟨b.2, hv⟩
  · cases h

/-- A record was made from `init` by storing values into fields, into each that is required
unless its name is in `seen`. -/
structure Filled {m : ℕ} (hm : m < n) (fields : List (Field n ρ)) (seen : List String)
    (init r : ρ) : Prop where
  /-- What storing keeps holds of the record if it held at first. -/
  keeps : ∀ P : ρ → Prop, P init →
    (∀ f ∈ fields, ∀ t q q', f.store m hm t q = .ok q' → P q → P q') → P r
  /-- What storing into a required field brings about, and storing keeps, holds of the record. -/
  sets : ∀ f ∈ fields, f.required = true → f.name ∉ seen → ∀ P : ρ → Prop,
    (∀ t q q', f.store m hm t q = .ok q' → P q') →
    (∀ g ∈ fields, ∀ t q q', g.store m hm t q = .ok q' → P q → P q') → P r

lemma filled_positions {m : ℕ} {hm : m < n} {expected : String} {ending : ListEnd} {k : ℕ}
    {fields : List (Field n ρ)} {items : List Source} {init r : ρ}
    (h : readPositions m hm expected ending k fields items init = .ok r) :
    Filled hm fields [] init r := by
  induction fields generalizing k items init with
  | nil =>
    cases items with
    | nil =>
      obtain ⟨-, -, h⟩ := bind_eq_ok h
      cases h
      exact ⟨fun _ hinit _ => hinit, by simp⟩
    | cons t items => cases h
  | cons f fields ih =>
    cases items with
    | nil =>
      rw [readPositions] at h
      split at h
      · cases h
      · split at h
        · cases h
        · rename_i hopt
          have hrest := ih h
          refine ⟨fun P hinit hstore => hrest.keeps P hinit fun g hg => hstore g (.tail _ hg), ?_⟩
          intro g hg hreq hnew P hset hstore
          rcases List.mem_cons.mp hg with rfl | hg
          · exact absurd hreq hopt
          · exact hrest.sets g hg hreq hnew P hset fun g hg => hstore g (.tail _ hg)
    | cons t items =>
      obtain ⟨q, hq, h⟩ := bind_eq_ok h
      have hrest := ih h
      refine ⟨fun P hinit hstore => ?_, fun g hg hreq hnew P hset hstore => ?_⟩
      · exact hrest.keeps P (hstore f (.head _) t init q hq hinit) fun g hg => hstore g (.tail _ hg)
      · rcases List.mem_cons.mp hg with rfl | hg
        · exact hrest.keeps P (hset t init q hq) fun g hg => hstore g (.tail _ hg)
        · exact hrest.sets g hg hreq hnew P hset fun g hg => hstore g (.tail _ hg)

lemma checkKey_eq_some {fields : List (Field n ρ)} {seen : List String} {k : String}
    {f : Field n ρ} (h : checkKey fields seen k = .ok (some f)) : f ∈ fields ∧ f.name = k := by
  unfold checkKey at h
  split at h
  · cases h
  · rename_i g hg
    split at h
    · cases h
    · cases h
      have hname := List.find?_some hg
      exact ⟨List.mem_of_find?_eq_some hg, by simpa using hname⟩

lemma filled_members {m : ℕ} {hm : m < n} {ending : ObjectEnd} {seen : List String}
    {fields : List (Field n ρ)} (hnodup : (fields.map (·.name)).Nodup)
    {members : List (Key × Source)} {init r : ρ}
    (h : readMembers m hm fields ending seen members init = .ok r) :
    Filled hm fields seen init r := by
  induction members generalizing seen init with
  | nil =>
    rw [readMembers] at h
    have hend : fields.find? (fun f => f.required && !seen.contains f.name) = none ∧ init = r := by
      split at h
      on_goal 1 => obtain ⟨-, -, h⟩ := bind_eq_ok h
      all_goals
        obtain ⟨-, -, h⟩ := bind_eq_ok h
        split at h
        · cases h
        · cases h
          exact ⟨‹_›, rfl⟩
    obtain ⟨hnone, rfl⟩ := hend
    refine ⟨fun _ hinit _ => hinit, fun f hf hreq hnew => absurd ?_ hnew⟩
    have hstored := List.find?_eq_none.mp hnone f hf
    simpa [hreq] using hstored
  | cons k members ih =>
    obtain ⟨k, t⟩ := k
    rw [readMembers] at h
    obtain ⟨name, -, h⟩ := bind_eq_ok h
    obtain ⟨found, hfound, h⟩ := bind_eq_ok h
    cases found with
    | none =>
      obtain ⟨-, -, h⟩ := bind_eq_ok h
      exact ih h
    | some f =>
      obtain ⟨q, hq, h⟩ := bind_eq_ok h
      obtain ⟨hf, rfl⟩ := checkKey_eq_some hfound
      have hrest := ih h
      refine ⟨fun P hinit hstore => ?_, fun g hg hreq hnew P hset hstore => ?_⟩
      · exact hrest.keeps P (hstore f hf t init q hq hinit) hstore
      · by_cases hname : g.name = f.name
        · obtain rfl := List.inj_on_of_nodup_map hnodup hg hf hname
          exact hrest.keeps P (hset t init q hq) hstore
        · exact hrest.sets g hg hreq (by simp [hname, hnew]) P hset hstore

lemma filled_tuple [FloatReader] {what : String} {fields : List (Field n ρ)} {init r : ρ}
    (h : readTuple n what fields init s = .ok r) :
    ∃ m, ∃ hm : m < n, n = m + 1 ∧ Filled hm fields [] init r := by
  unfold readTuple at h
  split at h
  · obtain ⟨m, hm, hn, h⟩ := descend_eq_ok h
    exact ⟨m, hm, hn, filled_positions h⟩
  · cases h

lemma filled_record [FloatReader] {what : String} {fields : List (Field n ρ)}
    (hnodup : (fields.map (·.name)).Nodup) {init r : ρ}
    (h : readRecord n what fields init s = .ok r) :
    ∃ m, ∃ hm : m < n, n = m + 1 ∧ Filled hm fields [] init r := by
  unfold readRecord at h
  split at h
  · obtain ⟨m, hm, hn, h⟩ := descend_eq_ok h
    exact ⟨m, hm, hn, filled_members hnodup h⟩
  · exact filled_tuple h

lemma Filled.pair {m : ℕ} {hm : m < n} {first second : String} {β : Type}
    {readFirst : Below n (Source → Except Fault α)}
    {readSecond : Below n (Source → Except Fault β)} {init r : α × β}
    (h : Filled hm [field first readFirst fun v r => (v, r.2),
      field second readSecond fun v r => (r.1, v)] [] init r) :
    (∃ t, readFirst m hm t = .ok r.1) ∧ ∃ t, readSecond m hm t = .ok r.2 := by
  constructor
  · refine h.sets _ (.head _) rfl (by simp) (fun r => ∃ t, readFirst m hm t = .ok r.1) ?_ ?_
    · intro t q q' hstore
      obtain ⟨v, hv, rfl⟩ := map_eq_ok hstore
      exact ⟨t, hv⟩
    · intro g hg t q q' hstore hq
      rcases List.mem_pair.mp hg with rfl | rfl
      · obtain ⟨v, hv, rfl⟩ := map_eq_ok hstore
        exact ⟨t, hv⟩
      · obtain ⟨v, -, rfl⟩ := map_eq_ok hstore
        exact hq
  · refine h.sets _ (.tail _ (.head _)) rfl (by simp)
      (fun r => ∃ t, readSecond m hm t = .ok r.2) ?_ ?_
    · intro t q q' hstore
      obtain ⟨v, hv, rfl⟩ := map_eq_ok hstore
      exact ⟨t, hv⟩
    · intro g hg t q q' hstore hq
      rcases List.mem_pair.mp hg with rfl | rfl
      · obtain ⟨v, -, rfl⟩ := map_eq_ok hstore
        exact hq
      · obtain ⟨v, hv, rfl⟩ := map_eq_ok hstore
        exact ⟨t, hv⟩

/-- A variant that was read stood alone, or carried a payload one level further down. -/
lemma readVariant_eq_ok {variants : List (Variant n α)} {a : α}
    (h : readVariant n variants s = .ok a) :
    (∃ v ∈ variants, v.alone = .ok a) ∨
      ∃ m, ∃ hm : m < n, n = m + 1 ∧ ∃ v ∈ variants, ∃ t, v.read m hm t = .ok a := by
  have hfound : ∀ {name v}, findVariant variants name = .ok v → v ∈ variants := by
    intro name v h
    unfold findVariant at h
    split at h
    · cases h
      exact List.mem_of_find?_eq_some ‹_›
    · cases h
  unfold readVariant at h
  split at h <;> try cases h
  · obtain ⟨v, hv, h⟩ := bind_eq_ok h
    refine .inl ⟨v, hfound hv, ?_⟩
    split at h
    · cases h
      assumption
    · cases h
  · obtain ⟨m, hm, hn, h⟩ := descend_eq_ok h
    simp only at h
    split at h
    · obtain ⟨-, -, h⟩ := bind_eq_ok h
      cases h
    · cases h
  · obtain ⟨m, hm, hn, h⟩ := descend_eq_ok h
    obtain ⟨k, -, h⟩ := bind_eq_ok h
    obtain ⟨v, hv, h⟩ := bind_eq_ok h
    obtain ⟨b, hb, h⟩ := bind_eq_ok h
    refine .inr ⟨m, hm, hn, v, hfound hv, _, hb.trans ?_⟩
    split at h
    · exact h
    · exact h
    · cases h
    · cases h

end

end Source

namespace Value

@[simp] lemma readable_string (s : String) (n : ℕ) : (string s).Readable n := by
  simp [Readable, depth, floats]

@[simp] lemma readable_int (k : ℤ) (n : ℕ) : (int k).Readable n := by
  simp [Readable, depth, floats]

@[simp] lemma readable_bool (b : Bool) (n : ℕ) : (bool b).Readable n := by
  simp [Readable, depth, floats]

@[simp] lemma readable_float {x : Binary64} {n : ℕ} :
    (float x).Readable n ↔ x.isFinite = true := by
  simp [Readable, depth, floats]

lemma readable_of_readList [FloatReader] {α : Type} {n : ℕ} {s : Source}
    {item : Source.Below n (Source → Except Fault α)} {xs : List α} (json : α → Value)
    (hitem : ∀ m hm t x, item m hm t = .ok x → (json x).Readable m)
    (h : Source.readList n item s = .ok xs) : (list (xs.map json)).Readable n := by
  obtain ⟨m, hm, rfl, hitems⟩ := Source.readList_eq_ok h
  refine readable_list.mpr fun v hv => ?_
  obtain ⟨x, hx, rfl⟩ := List.mem_map.mp hv
  obtain ⟨t, ht⟩ := hitems x hx
  exact hitem m hm t x ht

@[simp] lemma readable_tagged {name : String} {payload : Value} {n : ℕ} :
    (tagged name payload).Readable (n + 1) ↔ payload.Readable n := by
  simp [tagged, readable_object]

end Value

end OpTree.Json

namespace OpTree.IR

open OpTree.Json OpTree.Json.Source OpTree.Json.Value OpTree.Number

variable [FloatReader]

/-- A type that was read can be read again. -/
theorem Ty.readable_of_read {n : ℕ} {s : Source} {t : Ty} (h : Ty.read n s = .ok t) :
    t.toJson.Readable n := by
  induction n using Nat.strong_induction_on generalizing s t with
  | _ n ih =>
    rw [Ty.read] at h
    rcases readVariant_eq_ok h with ⟨v, hv, halone⟩ | ⟨m, hm, rfl, v, hv, s', hread⟩
    · simp only [List.mem_cons, List.not_mem_nil, or_false] at hv
      rcases hv with rfl | rfl | rfl | rfl | rfl | rfl | rfl <;> cases halone <;> simp [toJson]
    · simp only [List.mem_cons, List.not_mem_nil, or_false] at hv
      rcases hv with rfl | rfl | rfl | rfl | rfl | rfl | rfl
      · obtain ⟨w, -, rfl⟩ := map_eq_ok hread
        simp [toJson, uint32Json]
      · obtain ⟨-, -, rfl⟩ := map_eq_ok hread
        simp [toJson]
      · obtain ⟨-, -, rfl⟩ := map_eq_ok hread
        simp [toJson]
      · obtain ⟨-, -, rfl⟩ := map_eq_ok hread
        simp [toJson]
      · obtain ⟨-, -, rfl⟩ := map_eq_ok hread
        simp [toJson]
      · obtain ⟨r, hr, h⟩ := bind_eq_ok hread
        cases h
        obtain ⟨k, hk, rfl, hfilled⟩ := filled_tuple hr
        obtain ⟨⟨t, hshape⟩, u, helement⟩ := hfilled.pair
        have hshape := readable_of_readList int64Json (fun _ _ _ _ _ => readable_int _ _) hshape
        have helement := ih _ (by omega) helement
        simpa [toJson, readable_list] using ⟨hshape, helement⟩
      · obtain ⟨r, hr, h⟩ := bind_eq_ok hread
        cases h
        obtain ⟨k, hk, rfl, hfilled⟩ := filled_record (by simp [field]) hr
        obtain ⟨⟨t, hinputs⟩, u, hresults⟩ := hfilled.pair
        have hitem : ∀ j < k, ∀ s' t, Ty.read j s' = .ok t → t.toJson.Readable j :=
          fun j hj _ _ ht => ih j (by omega) ht
        have hinputs := readable_of_readList toJson hitem hinputs
        have hresults := readable_of_readList toJson hitem hresults
        simpa [toJson, readable_object] using ⟨hinputs, hresults⟩

theorem Value.readable_of_read {n : ℕ} {s : Source} {v : Value} (h : Value.read n s = .ok v) :
    v.toJson.Readable n := by
  rw [Value.read] at h
  obtain ⟨m, hm, rfl, hfilled⟩ := filled_record (by simp [field]) h
  have hty : v.ty.toJson.Readable m := by
    refine hfilled.sets _ (.tail _ (.head _)) rfl (by simp) (fun v => v.ty.toJson.Readable m) ?_ ?_
    · intro t q q' hstore
      obtain ⟨ty, hty, rfl⟩ := map_eq_ok hstore
      exact Ty.readable_of_read hty
    · intro g hg t q q' hstore hq
      rcases List.mem_pair.mp hg with rfl | rfl
      · obtain ⟨id, -, rfl⟩ := map_eq_ok hstore
        exact hq
      · obtain ⟨ty, hty, rfl⟩ := map_eq_ok hstore
        exact Ty.readable_of_read hty
  simpa [toJson, uint32Json, readable_object] using hty

theorem Location.readable_of_read {n : ℕ} {s : Source} {l : Location}
    (h : Location.read n s = .ok l) : l.toJson.Readable n := by
  induction n using Nat.strong_induction_on generalizing s l with
  | _ n ih =>
    rw [Location.read] at h
    rcases readVariant_eq_ok h with ⟨v, hv, halone⟩ | ⟨m, hm, rfl, v, hv, s', hread⟩
    · simp only [List.mem_cons, List.not_mem_nil, or_false] at hv
      rcases hv with rfl | rfl | rfl | rfl <;> cases halone
      simp [toJson]
    · simp only [List.mem_cons, List.not_mem_nil, or_false] at hv
      rcases hv with rfl | rfl | rfl | rfl
      · obtain ⟨-, -, rfl⟩ := map_eq_ok hread
        simp [toJson]
      · obtain ⟨r, hr, h⟩ := bind_eq_ok hread
        cases h
        obtain ⟨k, hk, rfl, -⟩ := filled_record (by simp [field]) hr
        simp [toJson, uint32Json, readable_object]
      · obtain ⟨r, -, rfl⟩ := map_eq_ok hread
        simp [toJson]
      · obtain ⟨parts, hparts, rfl⟩ := map_eq_ok hread
        have hparts := readable_of_readList toJson (fun j hj _ _ hl => ih j (by omega) hl) hparts
        simpa [toJson] using hparts

lemma isFinite_of_readFloat {s : Source} {x : Binary64} (h : readFloat s = .ok x) :
    x.isFinite = true := by
  unfold readFloat at h
  split at h
  · obtain ⟨v, hv, h⟩ := bind_eq_ok h
    cases v with
    | int v =>
      cases h
      exact Binary64.isFinite_ofInt (Numeral.natAbs_lt_of_number hv)
    | float y =>
      cases h
      exact Numeral.isFinite_of_number hv
  · cases h

theorem Attribute.readable_of_read {n : ℕ} {s : Source} {a : Attribute}
    (h : Attribute.read n s = .ok a) : a.toJson.Readable n := by
  induction n using Nat.strong_induction_on generalizing s a with
  | _ n ih =>
    rw [Attribute.read] at h
    rcases readVariant_eq_ok h with ⟨v, hv, halone⟩ | ⟨m, hm, rfl, v, hv, s', hread⟩
    · simp only [List.mem_cons, List.not_mem_nil, or_false] at hv
      rcases hv with rfl | rfl | rfl | rfl | rfl | rfl | rfl | rfl | rfl <;> cases halone
      simp [toJson]
    · simp only [List.mem_cons, List.not_mem_nil, or_false] at hv
      rcases hv with rfl | rfl | rfl | rfl | rfl | rfl | rfl | rfl | rfl
      · obtain ⟨-, -, rfl⟩ := map_eq_ok hread
        simp [toJson]
      · obtain ⟨b, -, rfl⟩ := map_eq_ok hread
        simp [toJson]
      · obtain ⟨r, hr, h⟩ := bind_eq_ok hread
        cases h
        obtain ⟨k, hk, rfl, hfilled⟩ := filled_tuple hr
        obtain ⟨-, t, hty⟩ := hfilled.pair
        simpa [toJson, int64Json, readable_list] using Ty.readable_of_read hty
      · obtain ⟨r, hr, h⟩ := bind_eq_ok hread
        cases h
        obtain ⟨k, hk, rfl, hfilled⟩ := filled_tuple hr
        obtain ⟨⟨u, hx⟩, t, hty⟩ := hfilled.pair
        simpa [toJson, readable_list] using ⟨isFinite_of_readFloat hx, Ty.readable_of_read hty⟩
      · obtain ⟨b, -, rfl⟩ := map_eq_ok hread
        simp [toJson]
      · obtain ⟨t, ht, rfl⟩ := map_eq_ok hread
        simpa [toJson] using Ty.readable_of_read ht
      · obtain ⟨items, hitems, rfl⟩ := map_eq_ok hread
        have hitems := readable_of_readList toJson (fun j hj _ _ ha => ih j (by omega) ha) hitems
        simpa [toJson] using hitems
      · obtain ⟨r, hr, h⟩ := bind_eq_ok hread
        cases h
        obtain ⟨k, hk, rfl, hfilled⟩ := filled_record (by simp [field]) hr
        obtain ⟨⟨u, hty⟩, t, hvalues⟩ := hfilled.pair
        have hvalues := readable_of_readList int64Json (fun _ _ _ _ _ => readable_int _ _) hvalues
        simpa [toJson, readable_object] using ⟨Ty.readable_of_read hty, hvalues⟩
      · obtain ⟨b, -, rfl⟩ := map_eq_ok hread
        simp [toJson]

end OpTree.IR
