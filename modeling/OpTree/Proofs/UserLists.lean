import OpTree.Print.Lines
import OpTree.Proofs.FirstOccurrence
import Mathlib.Logic.Function.Basic

/-!
Who is listed as a user of an operation, and in which order. Going through a program, users are
noted at each id that they use; of an operation those of its results are listed, each once. So the
list has exactly the operations that use one of the results, by what is printed for them. It goes
through the results, and at each of them through the program: where an operation has several
results this is not the order in which they are first used.
-/

namespace OpTree

open OpTree.IR

namespace IR.Operation

/-- The operation uses the value of an id. -/
def Takes (o : Operation) (i : ValueId) : Prop := ∃ v ∈ o.operands, v.id = i

instance (o : Operation) (i : ValueId) : Decidable (o.Takes i) :=
  inferInstanceAs (Decidable (∃ v ∈ o.operands, v.id = i))

/-- The operation uses one of the results of another. -/
def UsesResultOf (o op : Operation) : Prop := ∃ v ∈ op.results, o.Takes v.id

instance (o op : Operation) : Decidable (o.UsesResultOf op) :=
  inferInstanceAs (Decidable (∃ v ∈ op.results, o.Takes v.id))

end IR.Operation

namespace Print

/-! ### Noting users -/

/-- The users that are noted at each id. -/
structure UseTable where
  noted : ValueId → List String := fun _ => []

namespace UseTable

def record (t : UseTable) (user : String) (v : Value) : UseTable :=
  ⟨Function.update t.noted v.id (noteOnce (t.noted v.id) user)⟩

/-- Notes an operation at the id of each operand. -/
def meet (names : Names) (t : UseTable) (o : Operation) : UseTable :=
  o.operands.foldl (fun t v => t.record (identity names o) v) t

/-- The table that is made by going through a program. -/
def ofOperation (root : Operation) (names : Names) : UseTable := root.walk.foldl (meet names) {}

/-- Notes what is noted at the results of an operation. -/
def users (t : UseTable) (op : Operation) : List String :=
  op.results.foldl (fun out v => (t.noted v.id).foldl noteOnce out) []

def Knows (t : UseTable) (es : List (ValueId × String)) : Prop :=
  ∀ i, t.noted i = (Uses.mk es).ofId i

lemma knows_start : ({} : UseTable).Knows [] := fun _ => rfl

lemma noted_record (t : UseTable) (user : String) (v : Value) (i : ValueId) :
    (t.record user v).noted i = if i = v.id then noteOnce (t.noted v.id) user else t.noted i :=
  Function.update_apply _ _ _ _

lemma Knows.record {t : UseTable} {es : List (ValueId × String)} (h : t.Knows es)
    (user : String) (v : Value) : (t.record user v).Knows (es ++ [(v.id, user)]) := by
  intro i
  rw [noted_record, Uses.ofId, List.filter_append, List.map_append]
  split
  · rename_i hi
    subst hi
    have hlast : ([(v.id, user)].filter (·.1 = v.id)).map Prod.snd = [user] := by simp
    rw [hlast, h, Uses.ofId, eraseDups_concat, noteOnce]
    simp only [List.mem_eraseDups]
  · rename_i hi
    have hlast : ([(v.id, user)].filter (·.1 = i)).map Prod.snd = [] := by simp [Ne.symm hi]
    rw [hlast, List.append_nil, h, Uses.ofId]

lemma Knows.meet {t : UseTable} {es : List (ValueId × String)} (h : t.Knows es) (names : Names)
    (o : Operation) :
    (t.meet names o).Knows (es ++ o.operands.map fun v => (v.id, identity names o)) := by
  rw [UseTable.meet]
  induction o.operands generalizing t es with
  | nil => simpa using h
  | cons v vs ih =>
    rw [List.foldl_cons, List.map_cons, ← List.singleton_append, ← List.append_assoc]
    exact ih (h.record (identity names o) v)

lemma Knows.foldl {t : UseTable} {es : List (ValueId × String)} (h : t.Knows es) (names : Names)
    (os : List Operation) : (os.foldl (UseTable.meet names) t).Knows
      (es ++ os.flatMap fun o => o.operands.map fun v => (v.id, identity names o)) := by
  induction os generalizing t es with
  | nil => simpa using h
  | cons o os ih =>
    rw [List.foldl_cons, List.flatMap_cons, ← List.append_assoc]
    exact ih (h.meet names o)

/-- **What is noted is what is used.** -/
lemma knows_ofOperation (root : Operation) (names : Names) :
    (ofOperation root names).Knows (Uses.ofOperation root names).entries := by
  have h := knows_start.foldl names root.walk
  rwa [List.nil_append] at h

lemma users_eq (root : Operation) (names : Names) (op : Operation) :
    (ofOperation root names).users op = (Uses.ofOperation root names).users op := by
  have hfold (vs : List Value) (l : List String) :
      vs.foldl (fun out v => ((ofOperation root names).noted v.id).foldl noteOnce out)
          l.eraseDups =
        (l ++ vs.flatMap fun v => (Uses.ofOperation root names).ofId v.id).eraseDups := by
    induction vs generalizing l with
    | nil => simp
    | cons v vs ih =>
      rw [List.foldl_cons, foldl_noteOnce, knows_ofOperation root names v.id, ih,
        List.flatMap_cons, List.append_assoc]
  exact hfold op.results []

end UseTable

/-! ### The users -/

section

variable (root : Operation) (names : Names)

/-- What is put down at an id by going through a program, again for each operand. -/
def notes (i : ValueId) (o : Operation) : List String :=
  (o.operands.filter (·.id = i)).map fun _ => identity names o

lemma mem_notes {i : ValueId} {o : Operation} {s : String} :
    s ∈ notes names i o ↔ identity names o = s ∧ o.Takes i := by
  simp only [notes, Operation.Takes, List.mem_map, List.mem_filter, decide_eq_true_eq]
  constructor
  · rintro ⟨v, hv, rfl⟩
    exact ⟨rfl, v, hv⟩
  · rintro ⟨rfl, v, hv⟩
    exact ⟨v, hv, rfl⟩

lemma ofId_eq (i : ValueId) :
    (Uses.ofOperation root names).ofId i = (root.walk.flatMap (notes names i)).eraseDups := by
  rw [Uses.ofId, Uses.ofOperation, List.filter_flatMap, List.map_flatMap]
  simp only [List.filter_map, List.map_map]
  rfl

lemma mem_ofId {i : ValueId} {s : String} : s ∈ (Uses.ofOperation root names).ofId i ↔
    ∃ o ∈ root.walk, identity names o = s ∧ o.Takes i := by
  rw [ofId_eq, List.mem_eraseDups, List.mem_flatMap]
  simp only [mem_notes]

lemma mem_users {op : Operation} {s : String} : s ∈ (Uses.ofOperation root names).users op ↔
    ∃ o ∈ root.walk, identity names o = s ∧ o.UsesResultOf op := by
  rw [Uses.users, List.mem_eraseDups, List.mem_flatMap]
  simp only [mem_ofId, Operation.UsesResultOf]
  constructor
  · rintro ⟨v, hv, o, ho, hs, htakes⟩
    exact ⟨o, ho, hs, v, hv, htakes⟩
  · rintro ⟨o, ho, hs, v, hv, htakes⟩
    exact ⟨v, hv, o, ho, hs, htakes⟩

lemma users_isEmpty {op : Operation} : ((Uses.ofOperation root names).users op).isEmpty = true ↔
    ¬ ∃ o ∈ root.walk, o.UsesResultOf op := by
  rw [List.isEmpty_iff, List.eq_nil_iff_forall_not_mem, ← not_exists, not_iff_not]
  simp only [mem_users]
  constructor
  · rintro ⟨s, o, ho, -, huses⟩
    exact ⟨o, ho, huses⟩
  · rintro ⟨o, ho, huses⟩
    exact ⟨identity names o, o, ho, rfl, huses⟩

end

/-! ### The comment -/

namespace Session

def withoutUsers (s : Session) : Session := { s with uses := none }

lemma tail_eq (s : Session) (op : Operation) :
    s.tail op = s.withoutUsers.tail op ++ s.usersComment op := by
  have hnone : s.withoutUsers.usersComment op = "" := rfl
  simp only [tail, hnone, String.append_empty]
  rfl

lemma exists_lines_eq_comment (s : Session) (level : ℕ) (op : Operation) :
    ∃ ls ls' l, s.withoutUsers.lines level op = ls ++ [l] ∧
      s.lines level op = ls' ++ [{ l with text := l.text ++ s.usersComment op }] := by
  have hhead : s.withoutUsers.head op = s.head op := rfl
  have hflags : s.withoutUsers.flags = s.flags := rfl
  rw [lines, lines, hhead, hflags]
  split
  · exact ⟨[], [], _, rfl, by rw [tail_eq, ← String.append_assoc]; rfl⟩
  · split
    · exact ⟨[], [], _, rfl, by rw [tail_eq, ← String.append_assoc]; rfl⟩
    · exact ⟨_ :: _, _ :: _, _, rfl, by rw [tail_eq, ← String.append_assoc]; rfl⟩

lemma usersComment_ofOperation (ansi : Bool) (f : Flags) (root op : Operation) :
    let s := ofOperation ansi f root
    s.usersComment op =
      if f.valueUsers = true ∧ ∃ o ∈ root.walk, o.UsesResultOf op then
        paint s.colors .brightBlack
          (" // users: " ++ Ty.commaList ((Uses.ofOperation root s.names).users op))
      else "" := by
  intro s
  by_cases hf : f.valueUsers = true
  · have huses : s.uses = some (.ofOperation root s.names) := if_pos hf
    simp only [usersComment, huses, users_isEmpty, hf, true_and, ite_not]
  · have huses : s.uses = none := if_neg hf
    rw [usersComment, huses, if_neg fun h => hf h.1]

end Session

lemma paint_ne_empty (colors : Bool) (c : Color) {s : String} (hs : s ≠ "") :
    paint colors c s ≠ "" := by
  rw [paint]
  split
  · intro h
    have hchars := congrArg String.toList h
    rw [styled, String.toList_ofList] at hchars
    cases hchars
  · exact hs

/-- **The users of an operation are exactly those that use one of its results**, each once and by
what is printed for it; the table that notes them one by one says the same. Where users are shown
and there are any, and only there, they stand in a comment at the end of the last line of the
operation. -/
theorem users_exactly (root op : Operation) :
    (∀ names, let users := (Uses.ofOperation root names).users op
      (UseTable.ofOperation root names).users op = users ∧ users.Nodup ∧
        ∀ s, s ∈ users ↔ ∃ o ∈ root.walk, identity names o = s ∧ o.UsesResultOf op) ∧
    ∀ ansi f level, let s := Session.ofOperation ansi f root
      let comment := s.usersComment op
      (∃ ls ls' l, s.withoutUsers.lines level op = ls ++ [l] ∧
        s.lines level op = ls' ++ [{ l with text := l.text ++ comment }]) ∧
      comment = (if f.valueUsers = true ∧ ∃ o ∈ root.walk, o.UsesResultOf op then
        paint s.colors .brightBlack
          (" // users: " ++ Ty.commaList ((Uses.ofOperation root s.names).users op)) else "") ∧
      (comment ≠ "" ↔ f.valueUsers = true ∧ ∃ o ∈ root.walk, o.UsesResultOf op) := by
  refine ⟨fun names => ⟨UseTable.users_eq root names op, nodup_eraseDups _,
    fun s => mem_users root names⟩, fun ansi f level => ?_⟩
  intro s comment
  have hcomment : comment = _ := Session.usersComment_ofOperation ansi f root op
  have hpainted : paint s.colors .brightBlack
      (" // users: " ++ Ty.commaList ((Uses.ofOperation root s.names).users op)) ≠ "" :=
    paint_ne_empty _ _ fun h => by simpa using congrArg String.toList h
  refine ⟨s.exists_lines_eq_comment level op, hcomment, ?_⟩
  rw [hcomment]
  split
  · rename_i hused
    exact iff_of_true hpainted hused
  · rename_i hused
    exact iff_of_false (fun h => h rfl) hused

/-! ### The order -/

section

variable (root : Operation) (names : Names) (op : Operation)

/-- Where in a program an operation that is called `s` first uses a value. -/
def firstUse (i : ValueId) (s : String) : ℕ :=
  root.walk.findIdx fun o => identity names o = s ∧ o.Takes i

/-- Which result of an operation is the first that one called `s` uses. -/
def firstResult (s : String) : ℕ :=
  op.results.findIdx fun v => ∃ o ∈ root.walk, identity names o = s ∧ o.Takes v.id

/-- Where in a program an operation that is called `s` first uses any result of another. -/
def firstUseOfAny (s : String) : ℕ :=
  root.walk.findIdx fun o => identity names o = s ∧ o.UsesResultOf op

variable {root names op}

/-- At one id users are listed in the order in which they first use it. -/
lemma firstUse_lt {i : ValueId} {s t : String}
    (h : ((Uses.ofOperation root names).ofId i).idxOf s <
      ((Uses.ofOperation root names).ofId i).idxOf t) :
    firstUse root names i s < firstUse root names i t := by
  rw [ofId_eq] at h
  have hmem (s : String) : (fun o => decide (s ∈ notes names i o)) =
      fun o => decide (identity names o = s ∧ o.Takes i) :=
    funext fun o => decide_eq_decide.mpr (mem_notes names)
  have hfirst := findIdx_of_idxOf_flatMap (idxOf_lt_of_eraseDups h)
  rw [hmem, hmem] at hfirst
  rcases hfirst with hlt | ⟨heq, o, ho, hlt⟩
  · exact hlt
  · -- An operation has one name, so no two users are first met in the same one.
    have hs : s ∈ notes names i o :=
      List.idxOf_lt_length_iff.mp (Nat.lt_of_lt_of_le hlt List.idxOf_le_length)
    have ho' := List.getElem?_eq_some_iff.mp ho
    have ht : identity names o = t ∧ o.Takes i := by
      have hk := ho'.1
      rw [heq] at hk
      have := List.findIdx_getElem (w := hk)
      simp only [← heq, ho'.2, decide_eq_true_eq] at this
      exact this
    rw [((mem_notes names).mp hs).1.symm.trans ht.1] at hlt
    exact absurd hlt (Nat.lt_irrefl _)

/-- **The order in which users are listed**: by the first result that they use, and at one result
by where they first use it. -/
lemma pairwise_users : ((Uses.ofOperation root names).users op).Pairwise fun s t =>
    firstResult root names op s < firstResult root names op t ∨
      firstResult root names op s = firstResult root names op t ∧
        ∃ v, op.results[firstResult root names op s]? = some v ∧
          firstUse root names v.id s < firstUse root names v.id t := by
  have hmem (s : String) : (fun v : Value => decide (s ∈ (Uses.ofOperation root names).ofId v.id)) =
      fun v => decide (∃ o ∈ root.walk, identity names o = s ∧ o.Takes v.id) :=
    funext fun v => decide_eq_decide.mpr (mem_ofId root names)
  refine (pairwise_eraseDups _).imp fun {s t} hlt => ?_
  have hfirst := findIdx_of_idxOf_flatMap hlt
  rw [hmem, hmem] at hfirst
  rcases hfirst with hlt | ⟨heq, v, hv, hlt⟩
  · exact .inl hlt
  · exact .inr ⟨heq, v, hv, firstUse_lt hlt⟩

lemma firstResult_lt {s : String} (hs : s ∈ (Uses.ofOperation root names).users op) :
    firstResult root names op s < op.results.length := by
  obtain ⟨o, ho, hname, v, hv, htakes⟩ := (mem_users root names).mp hs
  exact List.findIdx_lt_length.mpr ⟨v, hv, decide_eq_true ⟨o, ho, hname, htakes⟩⟩

lemma firstUseOfAny_single {v : Value} (hop : op.results = [v]) (s : String) :
    firstUseOfAny root names op s = firstUse root names v.id s := by
  simp only [firstUseOfAny, firstUse, Operation.UsesResultOf, hop, List.mem_singleton,
    exists_eq_left]

end

/-- **Users are listed result by result**, and at each result in the order in which they first use
it. Of an operation with one result this is the order in which they first use any. -/
theorem users_in_order (root op : Operation) (names : Names) :
    let users := (Uses.ofOperation root names).users op
    let result := firstResult root names op
    users.Pairwise (fun s t => result s < result t ∨ result s = result t ∧
      ∃ v, op.results[result s]? = some v ∧
        firstUse root names v.id s < firstUse root names v.id t) ∧
    (op.results.length ≤ 1 →
      users.Pairwise fun s t => firstUseOfAny root names op s < firstUseOfAny root names op t) := by
  intro users result
  refine ⟨pairwise_users, fun hsingle => pairwise_users.imp_of_mem fun {s t} _ ht horder => ?_⟩
  have hresult := firstResult_lt ht
  rcases horder with hlt | ⟨-, v, hv, hlt⟩
  · omega
  · have hop : op.results = [v] := by
      obtain ⟨w, hw⟩ : ∃ w, op.results = [w] := List.length_eq_one_iff.mp (by omega)
      rw [hw] at hv ⊢
      rw [List.mem_singleton.mp (List.mem_of_getElem? hv)]
    rwa [firstUseOfAny_single hop, firstUseOfAny_single hop]

/-- An operation with two results, of which the second is used first. -/
def crossed : Operation where
  name := "pair"
  results := [⟨⟨0⟩, .index⟩, ⟨⟨1⟩, .index⟩]

/-- A program in which one operation uses the second result and then another the first. -/
def crossing : Operation where
  name := "main"
  regions := [{ blocks := [{ operations := [
    crossed,
    { name := "early", operands := [⟨⟨1⟩, .index⟩] },
    { name := "late", operands := [⟨⟨0⟩, .index⟩] }] }] }]

/-- The operation that uses the second result comes first in the program and last in the list. -/
theorem users_in_order_crossing : crossed ∈ crossing.walk ∧
    ¬ ((Uses.ofOperation crossing (.ofOperation crossing)).users crossed).Pairwise fun s t =>
      firstUseOfAny crossing (.ofOperation crossing) crossed s <
        firstUseOfAny crossing (.ofOperation crossing) crossed t := by
  have hwalk : crossing.walk = [crossing, crossed,
      { name := "early", operands := [⟨⟨1⟩, .index⟩] },
      { name := "late", operands := [⟨⟨0⟩, .index⟩] }] := by
    simp [crossing, crossed, Operation.walk]
  have hdefinitions : definitions crossing = [.result ⟨0⟩, .result ⟨1⟩] := by
    simp [crossing, crossed, definitions]
  refine ⟨by simp [hwalk], ?_⟩
  simp only [Uses.ofOperation, Uses.users, Uses.ofId, firstUseOfAny, Names.ofOperation, hwalk,
    hdefinitions]
  decide

end Print

end OpTree
