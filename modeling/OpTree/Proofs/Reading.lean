import OpTree.Json.Decode
import OpTree.Proofs.JsonText
import Mathlib.Data.List.Nodup

/-!
Reading back what was written. A reader of a form is given the tree of a JSON value that has the
form; it gives the result, or one of two faults: the value nests too deep for the budget, or it
holds a number that JSON cannot write.
-/

namespace OpTree.Json

open OpTree.Number

namespace Value

/-- How deep lists and objects nest. -/
def depth : Value → ℕ
  | list items => (items.map depth).foldr max 0 + 1
  | object members => (members.map fun m => m.2.depth).foldr max 0 + 1
  | _ => 0
termination_by v => v
decreasing_by
  · have := List.sizeOf_lt_of_mem ‹_›
    simp
    omega
  · have := List.sizeOf_lt_of_mem ‹m ∈ members›
    cases m
    simp at *
    omega

/-- The floating point numbers in a value, in order. -/
def floats : Value → List Binary64
  | float x => [x]
  | list items => items.flatMap floats
  | object members => members.flatMap fun m => m.2.floats
  | _ => []
termination_by v => v
decreasing_by
  · have := List.sizeOf_lt_of_mem ‹_›
    simp
    omega
  · have := List.sizeOf_lt_of_mem ‹m ∈ members›
    cases m
    simp at *
    omega

/-- The value nests no deeper than `n` levels and holds finite numbers only. -/
def Readable (n : ℕ) (v : Value) : Prop :=
  v.depth ≤ n ∧ ∀ x ∈ v.floats, x.isFinite = true

lemma foldr_max_le_iff {n : ℕ} (l : List ℕ) : l.foldr max 0 ≤ n ↔ ∀ d ∈ l, d ≤ n := by
  induction l with
  | nil => simp
  | cons d l ih => simp [ih]

lemma depth_list_le_iff {n : ℕ} (items : List Value) :
    (list items).depth ≤ n + 1 ↔ ∀ v ∈ items, v.depth ≤ n := by
  rw [depth, Nat.add_le_add_iff_right, foldr_max_le_iff, List.forall_mem_map]

lemma depth_object_le_iff {n : ℕ} (members : List (String × Value)) :
    (object members).depth ≤ n + 1 ↔ ∀ m ∈ members, m.2.depth ≤ n := by
  rw [depth, Nat.add_le_add_iff_right, foldr_max_le_iff, List.forall_mem_map]

lemma depth_list_pos (items : List Value) : 0 < (list items).depth := by
  rw [depth]
  exact Nat.succ_pos _

lemma mem_floats_list {items : List Value} {x : Binary64} :
    x ∈ (list items).floats ↔ ∃ v ∈ items, x ∈ v.floats := by
  rw [floats, List.mem_flatMap]

lemma mem_floats_object {members : List (String × Value)} {x : Binary64} :
    x ∈ (object members).floats ↔ ∃ m ∈ members, x ∈ m.2.floats := by
  rw [floats, List.mem_flatMap]

lemma readable_list {n : ℕ} {items : List Value} :
    (list items).Readable (n + 1) ↔ ∀ v ∈ items, v.Readable n := by
  simp only [Readable, depth_list_le_iff, mem_floats_list]
  constructor
  · rintro ⟨hd, hf⟩ v hv
    exact ⟨hd v hv, fun x hx => hf x ⟨v, hv, hx⟩⟩
  · intro h
    exact ⟨fun v hv => (h v hv).1, fun x ⟨v, hv, hx⟩ => (h v hv).2 x hx⟩

lemma readable_object {n : ℕ} {members : List (String × Value)} :
    (object members).Readable (n + 1) ↔ ∀ m ∈ members, m.2.Readable n := by
  simp only [Readable, depth_object_le_iff, mem_floats_object]
  constructor
  · rintro ⟨hd, hf⟩ m hm
    exact ⟨hd m hm, fun x hx => hf x ⟨m, hm, hx⟩⟩
  · intro h
    exact ⟨fun m hm => (h m hm).1, fun x ⟨m, hm, hx⟩ => (h m hm).2 x hx⟩

end Value

/-! ### Floating point numbers -/

/-- A text that was written is read as its value. -/
lemma decode_pretty {α : Type} (read : Source → Except Fault α) (v : Value) :
    decode read v.pretty = read v.source := by
  rw [decode, Source.ofText_pretty]
  cases h : read v.source <;> simp [h, bind, Except.bind]

/-- What is written for the number is read as the number, if it is finite. -/
def ReadsBack [FloatReader] (x : Binary64) : Prop :=
  x.isFinite = true → decode Source.readFloat (floatText x) = .ok x

section

variable [FloatReader]

lemma readFloat_source {x : Binary64} (hx : x.isFinite = true) :
    Source.readFloat (Value.float x).source = FloatReader.read (numberLayout.numeral x) := by
  have hnumber := Numeral.number_of_not_whole (Layout.numeral_not_whole numberLayout hx)
  rw [Value.source, Value.floatLeaf, if_pos hx, Source.readFloat, hnumber, Numeral.float]
  cases FloatReader.read (numberLayout.numeral x) <;> rfl

lemma readsBack_iff {x : Binary64} : ReadsBack x ↔
    (x.isFinite = true → FloatReader.read (numberLayout.numeral x) = .ok x) := by
  have hdecode := decode_pretty Source.readFloat (.float x)
  simp only [Value.pretty, Value.prettyAt, Value.compact] at hdecode
  rw [ReadsBack, hdecode]
  exact forall_congr' fun hx => by rw [readFloat_source hx]

instance (x : Binary64) : Decidable (ReadsBack x) := decidable_of_iff' _ readsBack_iff

end

/-- The reader that finds the nearest number. -/
abbrev FloatReader.nearest : FloatReader where
  read := Numeral.nearest
  isFinite_of_read := Numeral.isFinite_of_signed

/-- **Where the nearest number is found, every number is read back.** -/
theorem readsBack_nearest (x : Binary64) : @ReadsBack .nearest x :=
  (@readsBack_iff .nearest x).mpr (Layout.nearest_numeral numberLayout)

/-! ### Outcomes -/

/-- What comes of reading values that were written for `x`, with `n` levels left. -/
inductive Reads {α : Type} (vs : List Value) (n : ℕ) (x : α) : Except Fault α → Prop
  | ok (h : ∀ v ∈ vs, v.Readable n) : Reads vs n x (.ok x)
  | tooDeep (v : Value) (hv : v ∈ vs) (deep : n < v.depth) : Reads vs n x (.error .nestingLimit)
  | notFinite (v : Value) (hv : v ∈ vs) (y : Binary64) (hy : y ∈ v.floats)
      (h : y.isFinite = false) : Reads vs n x (.error (.wrongKind "null" "f64"))

namespace Reads

variable {α β : Type} {vs ws : List Value} {n : ℕ} {x : α} {y : β} {r : Except Fault α}

lemma bind {f : α → Except Fault β} (h : Reads vs n x r) (hf : Reads ws n y (f x)) :
    Reads (vs ++ ws) n y (r >>= f) := by
  cases h with
  | ok h =>
    change Reads _ _ _ (f x)
    generalize f x = r' at hf
    cases hf with
    | ok hf =>
      refine .ok fun v hv => ?_
      exact (List.mem_append.mp hv).elim (h v) (hf v)
    | tooDeep v hv deep => exact .tooDeep v (List.mem_append_right _ hv) deep
    | notFinite v hv z hz hfin => exact .notFinite v (List.mem_append_right _ hv) z hz hfin
  | tooDeep v hv deep => exact .tooDeep v (List.mem_append_left _ hv) deep
  | notFinite v hv z hz hfin => exact .notFinite v (List.mem_append_left _ hv) z hz hfin

lemma map (f : α → β) (h : Reads vs n x r) : Reads vs n (f x) (f <$> r) := by
  cases h with
  | ok h => exact .ok h
  | tooDeep v hv deep => exact .tooDeep v hv deep
  | notFinite v hv z hz hfin => exact .notFinite v hv z hz hfin

lemma bind_pure (f : α → β) (h : Reads vs n x r) :
    Reads vs n (f x) (r >>= fun a => pure (f a)) := h.map f

lemma descend_list {f : Source.Below n (Except Fault α)} (h : ∀ m hm, Reads vs m x (f m hm)) :
    Reads [.list vs] n x (Source.descend n f) := by
  cases n with
  | zero => exact .tooDeep _ (List.mem_singleton_self _) (Value.depth_list_pos vs)
  | succ n =>
    change Reads _ _ _ (f n (Nat.lt_succ_self n))
    have hn := h n (Nat.lt_succ_self n)
    generalize f n (Nat.lt_succ_self n) = r at hn
    cases hn with
    | ok hn =>
      refine .ok fun v hv => ?_
      rw [List.mem_singleton.mp hv]
      exact Value.readable_list.mpr hn
    | tooDeep v hv deep =>
      refine .tooDeep _ (List.mem_singleton_self _) (Nat.lt_of_not_le fun hle => ?_)
      exact absurd ((Value.depth_list_le_iff vs).mp hle v hv) (by omega)
    | notFinite v hv z hz hfin =>
      exact .notFinite _ (List.mem_singleton_self _) z (Value.mem_floats_list.mpr ⟨v, hv, hz⟩) hfin

lemma descend_object {ms : List (String × Value)} {f : Source.Below n (Except Fault α)}
    (h : ∀ m hm, Reads (ms.map Prod.snd) m x (f m hm)) :
    Reads [.object ms] n x (Source.descend n f) := by
  have hlist := descend_list h
  generalize Source.descend n f = r at hlist
  have hdepth : (Value.object ms).depth = (Value.list (ms.map Prod.snd)).depth := by
    rw [Value.depth, Value.depth, List.map_map, Function.comp_def]
  have hfloats : (Value.object ms).floats = (Value.list (ms.map Prod.snd)).floats := by
    rw [Value.floats, Value.floats, List.flatMap_map]
  cases hlist with
  | ok h =>
    refine .ok fun v hv => ?_
    rw [List.mem_singleton.mp hv, Value.Readable, hdepth, hfloats]
    exact h _ (List.mem_singleton_self _)
  | tooDeep v hv deep =>
    rw [List.mem_singleton.mp hv, ← hdepth] at deep
    exact .tooDeep _ (List.mem_singleton_self _) deep
  | notFinite v hv z hz hfin =>
    rw [List.mem_singleton.mp hv, ← hfloats] at hz
    exact .notFinite _ (List.mem_singleton_self _) z hz hfin

/-- The result is there if, and only if, the value can be read. -/
lemma eq_ok_iff {v : Value} (h : Reads [v] n x r) {y : α} :
    r = .ok y ↔ y = x ∧ v.Readable n := by
  cases h with
  | ok h =>
    have hv := h v (List.mem_singleton_self v)
    constructor
    · rintro ⟨⟩
      exact ⟨rfl, hv⟩
    · rintro ⟨rfl, -⟩
      rfl
  | tooDeep w hw deep =>
    rw [List.mem_singleton.mp hw] at deep
    exact ⟨nofun, fun h => absurd h.2.1 (by omega)⟩
  | notFinite w hw z hz hfin =>
    rw [List.mem_singleton.mp hw] at hz
    refine ⟨nofun, fun h => ?_⟩
    rw [h.2.2 z hz] at hfin
    cases hfin

end Reads

namespace Source

section

variable [FloatReader] {n : ℕ}

/-! ### Values without parts -/

lemma reads_text (expected s : String) :
    Reads [.string s] n s (readText expected (Value.string s).source) := by
  rw [Value.source]
  exact .ok (by simp [Value.Readable, Value.depth, Value.floats])

lemma reads_string (s : String) : Reads [.string s] n s (readString (Value.string s).source) :=
  reads_text _ s

lemma reads_bool (b : Bool) : Reads [.bool b] n b (readBool (Value.bool b).source) := by
  rw [Value.source]
  exact .ok (by simp [Value.Readable, Value.depth, Value.floats])

lemma reads_int (range : String) {low high k : ℤ} (hlow : low ≤ k) (hhigh : k ≤ high)
    (hmin : -0x8000000000000000 ≤ low) (hmax : high < 0x10000000000000000) :
    Reads [.int k] n k (readInt range low high (Value.int k).source) := by
  have hnumber := Numeral.number_ofInt (n := k) (by omega) (by omega)
  rw [Value.source, readInt]
  simp only [hnumber, hlow, hhigh, and_self, if_true]
  exact .ok (by simp [Value.Readable, Value.depth, Value.floats])

lemma reads_float {x : Binary64} (hback : ReadsBack x) :
    Reads [.float x] n x (readFloat (Value.float x).source) := by
  cases hx : x.isFinite with
  | true =>
    rw [readFloat_source hx, readsBack_iff.mp hback hx]
    exact .ok (by simp [Value.Readable, Value.depth, Value.floats, hx])
  | false =>
    rw [Value.source, Value.floatLeaf, hx, if_neg Bool.false_ne_true, readFloat]
    · exact .notFinite _ (List.mem_singleton_self _) x (by simp [Value.floats]) hx
    · simp

end

section

variable {α ρ : Type} {n : ℕ}

/-! ### Lists and objects -/

lemma reads_mapM {m : ℕ} {read : Source → Except Fault α} {v : α → Value} (items : List α)
    (h : ∀ i ∈ items, Reads [v i] m i (read (v i).source)) :
    Reads (items.map v) m items ((items.map fun i => (v i).source).mapM read) := by
  induction items with
  | nil => exact .ok (by simp)
  | cons i items ih =>
    have hi := h i List.mem_cons_self
    have hitems := ih fun j hj => h j (List.mem_cons_of_mem _ hj)
    rw [List.map_cons, List.map_cons, List.mapM_cons]
    exact hi.bind (hitems.bind_pure _)

lemma reads_list [FloatReader] {item : Below n (Source → Except Fault α)} {v : α → Value}
    (items : List α)
    (h : ∀ m hm, ∀ i ∈ items, Reads [v i] m i (item m hm (v i).source)) :
    Reads [.list (items.map v)] n items
      (readList n item (Value.list (items.map v)).source) := by
  rw [Value.source, List.map_map, readList]
  exact Reads.descend_list fun m hm => (reads_mapM items (h m hm)).bind_pure id

lemma reads_pairs [FloatReader] {value : Below n (Source → Except Fault α)} {v : α → Value}
    (entries : List (String × α))
    (h : ∀ m hm, ∀ e ∈ entries, Reads [v e.2] m e.2 (value m hm (v e.2).source)) :
    Reads [.object (entries.map fun e => (e.1, v e.2))] n entries
      (readPairs n value (Value.object (entries.map fun e => (e.1, v e.2))).source) := by
  rw [Value.source, List.map_map, readPairs]
  refine Reads.descend_object fun m hm => Reads.bind_pure id ?_
  have hm := h m hm
  clear h
  induction entries with
  | nil => exact .ok (by simp)
  | cons e entries ih =>
    have he := hm e List.mem_cons_self
    have hentries := ih fun j hj => hm j (List.mem_cons_of_mem _ hj)
    simp only [List.map_cons, List.mapM_cons]
    exact (he.bind_pure (e.1, ·)).bind (hentries.bind_pure _)

/-! ### Records -/

/-- Storing written values into fields, one after the other, takes a record from one state to
another. -/
inductive Stores {m : ℕ} (hm : m < n) : List (Field n ρ) → List Value → ρ → ρ → Prop
  | nil (r : ρ) : Stores hm [] [] r r
  | cons {f : Field n ρ} {fs : List (Field n ρ)} {v : Value} {vs : List Value} {r r' r'' : ρ}
      (head : Reads [v] m r' (f.store m hm v.source r)) (tail : Stores hm fs vs r' r'') :
      Stores hm (f :: fs) (v :: vs) r r''

lemma Stores.done {m : ℕ} {hm : m < n} {r r' : ρ} (h : r = r') : Stores hm [] [] r r' := h ▸ .nil r

lemma reads_positions {m : ℕ} {hm : m < n} {expected : String} {fs : List (Field n ρ)}
    {vs : List Value} {r r' : ρ} (h : Stores hm fs vs r r') (seen : ℕ) :
    Reads vs m r' (readPositions m hm expected .closed seen fs (vs.map Value.source) r) := by
  induction h generalizing seen with
  | nil r => exact .ok (by simp)
  | cons head _ ih =>
    rw [List.map_cons, readPositions]
    exact head.bind (ih (seen + 1))

lemma reads_tuple [FloatReader] {what : String} {fields : List (Field n ρ)} {vs : List Value}
    {init r : ρ} (h : ∀ m (hm : m < n), Stores hm fields vs init r) :
    Reads [.list vs] n r (readTuple n what fields init (Value.list vs).source) := by
  rw [Value.source, readTuple]
  exact Reads.descend_list fun m hm => reads_positions (h m hm) 0

lemma find?_field {before after : List (Field n ρ)} {f : Field n ρ}
    (h : f.name ∉ before.map (·.name)) :
    (before ++ f :: after).find? (·.name == f.name) = some f := by
  have hbefore : before.find? (·.name == f.name) = none := by
    refine List.find?_eq_none.mpr fun g hg hname => h ?_
    exact List.mem_map.mpr ⟨g, hg, by simpa using hname⟩
  rw [List.find?_append, hbefore, List.find?_cons_of_pos (by simp)]
  rfl

lemma checkKey_field {before after : List (Field n ρ)} {f : Field n ρ}
    (h : f.name ∉ before.map (·.name)) {seen : List String}
    (hseen : ∀ k, k ∈ seen ↔ k ∈ before.map (·.name)) :
    checkKey (before ++ f :: after) seen f.name = .ok (some f) := by
  have hnew : f.name ∉ seen := fun hmem => h ((hseen _).mp hmem)
  simp only [checkKey, find?_field h, if_neg hnew]

lemma reads_members {m : ℕ} {hm : m < n} {fields before fs : List (Field n ρ)}
    {ms : List (String × Value)} {r r' : ρ} (h : Stores hm fs (ms.map Prod.snd) r r')
    (hfields : fields = before ++ fs) (hnames : ms.map Prod.fst = fs.map (·.name))
    (hnodup : (fields.map (·.name)).Nodup) {seen : List String}
    (hseen : ∀ k, k ∈ seen ↔ k ∈ before.map (·.name)) :
    Reads (ms.map Prod.snd) m r' (readMembers m hm fields .closed seen
      (ms.map fun k => (.name k.1, k.2.source)) r) := by
  generalize hvs : ms.map Prod.snd = vs at h
  induction h generalizing before ms seen with
  | nil r =>
    obtain rfl : ms = [] := List.map_eq_nil_iff.mp hvs
    have hall : fields.find? (fun f => f.required && !seen.contains f.name) = none := by
      refine List.find?_eq_none.mpr fun f hf => ?_
      have hmem : f.name ∈ seen := (hseen _).mpr (List.mem_map_of_mem (by simpa [hfields] using hf))
      simp [hmem]
    rw [List.map_nil, readMembers]
    simp only [ObjectEnd.lastKey?, ObjectEnd.fault?, hall]
    exact .ok (by simp)
  | @cons f fs v vs r r' r'' head tail ih =>
    obtain ⟨k, ms, rfl⟩ : ∃ k ms', ms = k :: ms' :=
      List.exists_cons_of_ne_nil (by rintro rfl; simp at hvs)
    obtain ⟨name, w⟩ := k
    simp only [List.map_cons, List.cons.injEq] at hvs hnames
    obtain ⟨rfl, rfl⟩ := hvs
    obtain ⟨rfl, hnames⟩ := hnames
    have hnew : f.name ∉ before.map (·.name) := by
      rw [hfields, List.map_append, List.map_cons] at hnodup
      exact fun hmem => (List.nodup_append.mp hnodup).2.2 _ hmem _ (by simp) rfl
    have hkey : checkKey fields seen f.name = .ok (some f) :=
      hfields ▸ checkKey_field hnew hseen
    have hrest := ih (show fields = (before ++ [f]) ++ fs by simp [hfields]) hnames
      (show ∀ k, k ∈ f.name :: seen ↔ _ from fun k => by simp [hseen k, or_comm]) rfl
    rw [List.map_cons, readMembers, Key.read]
    simp only [hkey, bind, Except.bind]
    exact head.bind hrest

lemma reads_record [FloatReader] {what : String} {fields : List (Field n ρ)}
    {ms : List (String × Value)} {init r : ρ}
    (h : ∀ m (hm : m < n), Stores hm fields (ms.map Prod.snd) init r)
    (hnames : ms.map Prod.fst = fields.map (·.name)) (hnodup : (fields.map (·.name)).Nodup) :
    Reads [.object ms] n r (readRecord n what fields init (Value.object ms).source) := by
  rw [Value.source, readRecord]
  exact Reads.descend_object fun m hm =>
    reads_members (h m hm) (List.nil_append fields).symm hnames hnodup (by simp)

/-! ### Variants -/

lemma reads_alone {variants : List (Variant n α)} {name : String} {v : Variant n α} {a : α}
    (hfind : variants.find? (·.name == name) = some v) (halone : v.alone = .ok a) :
    Reads [.string name] n a (readVariant n variants (Value.string name).source) := by
  rw [Value.source, readVariant, findVariant, hfind]
  simp only [bind, Except.bind, halone]
  exact .ok (by simp [Value.Readable, Value.depth, Value.floats])

lemma reads_tagged {variants : List (Variant n α)} {name : String} {v : Variant n α} {a : α}
    {payload : Value} (hfind : variants.find? (·.name == name) = some v)
    (h : ∀ m hm, Reads [payload] m a (v.read m hm payload.source)) :
    Reads [.tagged name payload] n a
      (readVariant n variants (Value.tagged name payload).source) := by
  rw [Value.tagged, Value.source, List.map_singleton, readVariant]
  refine Reads.descend_object fun m hm => ?_
  simp only [Key.read, findVariant, hfind, bind, Except.bind]
  exact (h m hm).bind_pure id

end

end Source

end OpTree.Json
