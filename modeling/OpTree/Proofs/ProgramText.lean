import OpTree.Proofs.LineText
import OpTree.Proofs.Renaming

/-!
The text form identifies a program. Of two clean programs with the same text, printed with
locations, each is the other with its ids renamed. The renaming takes the id that has a name in the
one to the id that has it in the other; that it leads from the one program to the other is read off
the text from the front, along the nesting of operations.
-/

namespace OpTree

open OpTree.IR OpTree.Text

namespace Print

/-! ### Lines -/

/-- The blanks in front of a line. -/
def margin (level : ℕ) : List Char := List.replicate (2 * level) ' '

lemma margin_append_inj {level level' : ℕ} {c d : Char} {x y : List Char} (hc : c ≠ ' ')
    (hd : d ≠ ' ') (h : margin level ++ c :: x = margin level' ++ d :: y) :
    level = level' ∧ c = d ∧ x = y := by
  have hblank {level : ℕ} : ∀ e ∈ margin level, (e == ' ') = true := by simp [margin]
  obtain ⟨hmargin, hrest⟩ := span_inj hblank hblank (by simpa) (by simpa) h
  have hlength := congrArg List.length hmargin
  rw [margin, margin, List.length_replicate, List.length_replicate] at hlength
  exact ⟨by omega, List.cons.inj hrest⟩

/-- The text begins with a line at the level that begins with one of the characters. -/
def Begins (level : ℕ) (cs x : List Char) : Prop := ∃ c ∈ cs, ∃ r, x = margin level ++ c :: r

lemma Begins.unique {level level' : ℕ} {cs ds x : List Char} (h : Begins level cs x)
    (h' : Begins level' ds x) (hcs : ' ' ∉ cs) (hds : ' ' ∉ ds) :
    level = level' ∧ ∃ c ∈ cs, c ∈ ds := by
  obtain ⟨c, hc, r, rfl⟩ := h
  obtain ⟨d, hd, s, heq⟩ := h'
  obtain ⟨hlevel, rfl, -⟩ :=
    margin_append_inj (fun h => hcs (h ▸ hc)) (fun h => hds (h ▸ hd)) heq
  exact ⟨hlevel, c, hc, hd⟩

def lineChars (ls : List Line) : List Char :=
  ls.flatMap fun l => margin l.level ++ (l.text.toList ++ ['\n'])

lemma toList_render (l : Line) : (l.render (IndentStyle.spaces 2).unit).toList =
    margin l.level ++ (l.text.toList ++ ['\n']) := by
  have hmargin : (String.join (List.replicate l.level (IndentStyle.spaces 2).unit)).toList =
      margin l.level := by
    rw [String.toList_join, margin]
    induction l.level with
    | zero => rfl
    | succ n ih =>
      rw [List.replicate_succ, List.flatMap_cons, ih]
      rfl
  rw [Line.render, String.toList_append, String.toList_append, hmargin, List.append_assoc]
  rfl

lemma toList_text (ansi : Bool) (root : Operation) :
    (text ansi { debugInfo := true } root).toList =
      lineChars ((located (.ofOperation root)).lines 0 root) := by
  have hsession : Session.ofOperation ansi { debugInfo := true } root =
      located (.ofOperation root) := rfl
  rw [text, Print.lines, hsession, String.toList_join, List.flatMap_map]
  exact List.flatMap_congr fun l _ => toList_render l

lemma lineChars_append (ls ls' : List Line) :
    lineChars (ls ++ ls') = lineChars ls ++ lineChars ls' := List.flatMap_append

lemma lineChars_cons (l : Line) (ls : List Line) :
    lineChars (l :: ls) = margin l.level ++ (l.text.toList ++ '\n' :: lineChars ls) := by
  rw [lineChars, List.flatMap_cons, List.append_assoc, List.append_assoc]
  rfl

lemma lineChars_flatMap {α : Type} (l : List α) (f : α → List Line) :
    lineChars (l.flatMap f) = l.flatMap fun a => lineChars (f a) := List.flatMap_assoc

/-! ### Texts of operations, blocks and regions -/

section

variable (n : Names)

def opChars (level : ℕ) (op : Operation) : List Char :=
  lineChars ((located n).lines level op)

def bodyChars (level : ℕ) (b : Block) : List Char :=
  b.operations.flatMap (opChars n (level + 1))

def blockChars (level index : ℕ) (b : Block) : List Char :=
  lineChars ((located n).labelLines level index b) ++ bodyChars n level b

def regionChars (level : ℕ) (r : Region) : List Char :=
  r.blocks.zipIdx.flatMap fun p => blockChars n level p.2 p.1

lemma blockChars_bare (level : ℕ) {b : Block} (hb : b.arguments.isEmpty = true) :
    blockChars n level 0 b = bodyChars n level b := by
  rw [blockChars, Session.labelLines, if_pos ⟨rfl, hb⟩]
  rfl

lemma blockChars_labelled (level : ℕ) {index : ℕ} {b : Block}
    (hb : ¬(index = 0 ∧ b.arguments.isEmpty = true)) : blockChars n level index b =
      margin level ++ (((located n).labelText index b).toList ++ '\n' :: bodyChars n level b) := by
  rw [blockChars, Session.labelLines, if_neg hb, lineChars_cons, List.append_assoc,
    List.append_assoc]
  rfl

lemma lineChars_blockLines (level index : ℕ) (bs : List Block) :
    lineChars ((located n).blockLines level index (bs.map fun b =>
        (b, b.operations.flatMap ((located n).lines (level + 1))))) =
      (bs.zipIdx index).flatMap fun p => blockChars n level p.2 p.1 := by
  induction bs generalizing index with
  | nil => rfl
  | cons b bs ih =>
    rw [List.map_cons, Session.blockLines, lineChars_append, lineChars_append, lineChars_flatMap,
      ih, List.zipIdx_cons, List.flatMap_cons]
    rfl

/-- The text of the regions behind the first one and of what closes the last. -/
def restChars (level : ℕ) (rs : List Region) (op : Operation) : List Char :=
  rs.flatMap (fun r => margin level ++ (['}', ',', ' ', '{', '\n'] ++ regionChars n level r)) ++
    (margin level ++ ('}' :: ')' :: (((located n).tail op).toList ++ ['\n'])))

/-- The text of an operation behind its operands. -/
def afterChars (level : ℕ) (op : Operation) : List Char :=
  match op.regions with
  | [] => ((located n).tail op).toList ++ ['\n']
  | r :: rs => ' ' :: '(' :: '{' :: '\n' :: (regionChars n level r ++ restChars n level rs op)

lemma opChars_eq (level : ℕ) (op : Operation) : opChars n level op =
    margin level ++ (((located n).head op).toList ++ afterChars n level op) := by
  have hseparator : "\x7d, \x7b".toList = ['}', ',', ' ', '{'] := rfl
  have hopen : " (\x7b".toList = [' ', '(', '{'] := rfl
  have hclose : "\x7d)".toList = ['}', ')'] := rfl
  have hitem (r : Region) : lineChars ([⟨level, .separator, "\x7d, \x7b"⟩] ++
        (located n).blockLines level 0 (r.blocks.map fun b =>
          (b, b.operations.flatMap ((located n).lines (level + 1))))) =
      margin level ++ (['}', ',', ' ', '{', '\n'] ++ regionChars n level r) := by
    rw [List.singleton_append, lineChars_cons, lineChars_blockLines, hseparator]
    rfl
  rw [opChars, Session.lines, afterChars]
  cases h : op.regions with
  | nil =>
    rw [List.isEmpty_nil, if_pos rfl, lineChars_cons, String.toList_append, List.append_assoc]
    rfl
  | cons r rs =>
    rw [if_neg (by simp), if_neg (by simp [located]), lineChars_cons, lineChars_append,
      List.map_cons, intercalate_cons, lineChars_append, List.flatMap_map, lineChars_flatMap,
      lineChars_blockLines, lineChars_cons, String.toList_append, String.toList_append, hopen,
      hclose, List.flatMap_congr fun r _ => hitem r, List.append_assoc, List.append_assoc]
    rfl

end

/-! ### Reading operations -/

/-- Everything in the operation has a name, and its text hides nothing. -/
structure Shows (n : Names) (op : Operation) : Prop where
  plain : op.Plain
  results : n.Covers op.results
  operands : n.Covers op.operands
  arguments : ∀ r ∈ op.regions, ∀ b ∈ r.blocks, n.Covers b.arguments

section

variable {f : ValueId → ValueId} {n m : Names} (hn : n.Proper) (hm : m.Proper)
  (hf : Names.Transfers f n m)

include hf in
lemma map_rename_eq {vs ws : List Value} (hvs : n.Covers vs) (hws : m.Covers ws)
    (h : (vs.map fun v => (n.name v, v.ty)) = ws.map fun w => (m.name w, w.ty)) :
    vs.map (Value.rename f) = ws := by
  have hvalue : ∀ v ∈ vs, ∀ w ∈ ws, (n.name v, v.ty) = (m.name w, w.ty) → v.rename f = id w := by
    intro v hv w hw h
    rw [Prod.mk.injEq] at h
    rw [Value.rename, hf v w (hvs v hv) (hws w hw) h.1, h.2]
    rfl
  rw [map_eq_of_map_eq hvalue h, List.map_id]

lemma map_pair_eq {α β γ δ : Type} {f : α → γ} {f' : β → γ} {g : α → δ} {g' : β → δ} {as : List α}
    {bs : List β} (h : as.map f = bs.map f') (h' : as.map g = bs.map g') :
    (as.map fun a => (f a, g a)) = bs.map fun b => (f' b, g' b) := by
  rw [← List.zip_map', h, h', List.zip_map']

/-- The texts of two operations can be the same only if one is the other renamed. -/
def Told (f : ValueId → ValueId) (n m : Names) (level : ℕ) (a b : Operation) : Prop :=
  ∀ x y, opChars n level a ++ x = opChars m level b ++ y → a.rename f = b ∧ x = y

include hn in
lemma begins_opChars (level : ℕ) {op : Operation} (h : n.Covers op.results) (z : List Char) :
    Begins level ['%', '"'] (opChars n level op ++ z) := by
  obtain ⟨c, r, hcr, hc⟩ := exists_head_eq_cons hn h
  rw [opChars_eq, hcr, List.append_assoc, List.append_assoc]
  exact ⟨c, hc, _, rfl⟩

/-- Everything in the block has a name, and its text hides nothing. -/
structure ShowsBlock (n : Names) (b : Block) : Prop where
  arguments : n.Covers b.arguments
  plain : ∀ v ∈ b.arguments, v.ty.Plain
  results : ∀ c ∈ b.operations, n.Covers c.results

include hn hm in
lemma bodyChars_append_inj {level : ℕ} {b c : Block} (hb : ShowsBlock n b) (hc : ShowsBlock m c)
    (h : ∀ o ∈ b.operations, ∀ o' ∈ c.operations, Told f n m (level + 1) o o') {x y : List Char}
    (hx : Begins level ['^', '}'] x) (hy : Begins level ['^', '}'] y)
    (heq : bodyChars n level b ++ x = bodyChars m level c ++ y) :
    b.operations.map (Operation.rename f) = c.operations ∧ x = y := by
  have hend {x : List Char} (hx : Begins level ['^', '}'] x) :
      ¬Begins (level + 1) ['%', '"'] x ∧ True := by
    refine ⟨fun h => ?_, trivial⟩
    have hlevel := (hx.unique h (by decide) (by decide)).1
    omega
  obtain ⟨hmap, hxy⟩ := flatMap_append_inj (k := id) (fun _ _ => trivial) (hend hx) (hend hy)
    (fun o ho z => begins_opChars hn (level + 1) (hb.results o ho) z)
    (fun o ho z => begins_opChars hm (level + 1) (hc.results o ho) z)
    (fun o ho o' ho' x y _ _ heq => h o ho o' ho' x y heq) heq
  exact ⟨by rw [hmap, List.map_id], hxy⟩

/-! ### Reading blocks -/

/-- What stands behind the first block of a region: the second one or the end of the region. -/
def Continues (level : ℕ) (x : List Char) : Prop :=
  ∃ r, x = margin level ++ '}' :: r ∨ x = margin level ++ '^' :: 'b' :: 'b' :: '1' :: r

lemma Continues.begins {level : ℕ} {x : List Char} (hx : Continues level x) :
    Begins level ['^', '}'] x := by
  obtain ⟨r, rfl | rfl⟩ := hx
  · exact ⟨'}', by decide, r, rfl⟩
  · exact ⟨'^', by decide, _, rfl⟩

lemma begins_labelled (n : Names) (level : ℕ) {index : ℕ} {b : Block}
    (hb : ¬(index = 0 ∧ b.arguments.isEmpty = true)) (z : List Char) :
    Begins level ['^'] (blockChars n level index b ++ z) := by
  rw [blockChars_labelled n level hb, toList_labelText]
  simp only [List.append_assoc, List.cons_append]
  exact ⟨'^', by decide, _, rfl⟩

lemma continues_blocks {level : ℕ} (bs : List Block) {x : List Char} (hx : Begins level ['}'] x) :
    Continues level (((bs.zipIdx 1).flatMap fun p => blockChars n level p.2 p.1) ++ x) := by
  cases bs with
  | nil =>
    obtain ⟨c, hc, r, rfl⟩ := hx
    rw [List.mem_singleton.mp hc]
    exact ⟨r, .inl rfl⟩
  | cons b bs =>
    have hone : Nat.toDigits 10 1 = ['1'] := by decide
    rw [List.zipIdx_cons, List.flatMap_cons, blockChars_labelled n level (by simp),
      toList_labelText, hone]
    simp only [List.append_assoc, List.cons_append, List.nil_append]
    exact ⟨_, .inr rfl⟩

include hm in
lemma labelled_ne_bare {level : ℕ} {b c : Block} (hc : ShowsBlock m c) {x y : List Char}
    (hy : Continues level y) : margin level ++ (((located n).labelText 0 b).toList ++ x) ≠
      bodyChars m level c ++ y := by
  have hzero : Nat.toDigits 10 0 = ['0'] := by decide
  intro heq
  rw [toList_labelText, hzero] at heq
  simp only [List.append_assoc, List.cons_append, List.nil_append] at heq
  unfold bodyChars at heq
  cases hops : c.operations with
  | nil =>
    rw [hops, List.flatMap_nil, List.nil_append] at heq
    obtain ⟨r, rfl | rfl⟩ := hy
    · exact absurd (margin_append_inj (by decide) (by decide) heq).2.1 (by decide)
    · have hlabel := (margin_append_inj (by decide) (by decide) heq).2.2
      simp at hlabel
  | cons o os =>
    have hbegins := begins_opChars hm (level + 1) (hc.results o (by simp [hops]))
      (os.flatMap (opChars m (level + 1)) ++ y)
    rw [hops, List.flatMap_cons, List.append_assoc] at heq
    rw [← heq] at hbegins
    have hlabel : Begins level ['^'] (margin level ++ '^' :: 'b' :: 'b' :: '0' ::
        (argumentsChars (b.arguments.map fun v => (n.name v, v.ty)) ++ ':' :: x)) :=
      ⟨'^', by decide, _, rfl⟩
    have hlevel := (hlabel.unique hbegins (by decide) (by decide)).1
    omega

lemma rename_block_eq {b c : Block} (harguments : b.arguments.map (Value.rename f) = c.arguments)
    (hops : b.operations.map (Operation.rename f) = c.operations) : b.rename f = c := by
  rw [Block.rename, harguments, hops]
  cases c
  rfl

lemma rename_region_eq {r s : Region} (h : r.blocks.map (Block.rename f) = s.blocks) :
    r.rename f = s := by
  rw [Region.rename, h]
  cases s
  rfl

lemma rename_operation_eq {a b : Operation} (hname : a.name = b.name)
    (hoperands : a.operands.map (Value.rename f) = b.operands)
    (hresults : a.results.map (Value.rename f) = b.results)
    (hattributes : a.attributes = b.attributes)
    (hregions : a.regions.map (Region.rename f) = b.regions) (hlocation : a.location = b.location) :
    a.rename f = b := by
  have hrename : a.rename f =
      ⟨a.name, a.operands.map (Value.rename f), a.results.map (Value.rename f), a.attributes,
        a.regions.map (Region.rename f), a.location⟩ := by
    rw [Operation.rename]
    rfl
  rw [hrename, hname, hoperands, hresults, hattributes, hregions, hlocation]
  cases b
  rfl

include hn hm hf

lemma labelled_append_inj {level i j : ℕ} {b c : Block} (hi : ¬(i = 0 ∧ b.arguments.isEmpty = true))
    (hj : ¬(j = 0 ∧ c.arguments.isEmpty = true)) (hb : ShowsBlock n b) (hc : ShowsBlock m c)
    (h : ∀ o ∈ b.operations, ∀ o' ∈ c.operations, Told f n m (level + 1) o o') {x y : List Char}
    (hx : Begins level ['^', '}'] x) (hy : Begins level ['^', '}'] y)
    (heq : blockChars n level i b ++ x = blockChars m level j c ++ y) : b.rename f = c ∧ x = y := by
  rw [blockChars_labelled n level hi, blockChars_labelled m level hj] at heq
  simp only [List.append_assoc, List.cons_append] at heq
  obtain ⟨-, harguments, heq⟩ := labelText_append_inj hn hm hb.arguments hc.arguments hb.plain
    hc.plain (List.append_cancel_left heq)
  obtain ⟨hops, hxy⟩ := bodyChars_append_inj hn hm hb hc h hx hy (List.cons.inj heq).2
  exact ⟨rename_block_eq (map_rename_eq hf hb.arguments hc.arguments harguments) hops, hxy⟩

lemma first_append_inj {level : ℕ} {b c : Block} (hb : ShowsBlock n b) (hc : ShowsBlock m c)
    (h : ∀ o ∈ b.operations, ∀ o' ∈ c.operations, Told f n m (level + 1) o o') {x y : List Char}
    (hx : Continues level x) (hy : Continues level y)
    (heq : blockChars n level 0 b ++ x = blockChars m level 0 c ++ y) : b.rename f = c ∧ x = y := by
  by_cases heb : b.arguments.isEmpty = true <;> by_cases hec : c.arguments.isEmpty = true
  · rw [blockChars_bare n level heb, blockChars_bare m level hec] at heq
    obtain ⟨hops, hxy⟩ := bodyChars_append_inj hn hm hb hc h hx.begins hy.begins heq
    rw [List.isEmpty_iff] at heb hec
    exact ⟨rename_block_eq (by rw [heb, hec, List.map_nil]) hops, hxy⟩
  · rw [blockChars_bare n level heb, blockChars_labelled m level (by simpa using hec)] at heq
    simp only [List.append_assoc] at heq
    exact absurd heq.symm (labelled_ne_bare hn hb hx)
  · rw [blockChars_labelled n level (by simpa using heb), blockChars_bare m level hec] at heq
    simp only [List.append_assoc] at heq
    exact absurd heq (labelled_ne_bare hm hc hy)
  · exact labelled_append_inj hn hm hf (by simpa using heb) (by simpa using hec) hb hc h hx.begins
      hy.begins heq

/-- A region can be told from its text. -/
lemma regionChars_append_inj {level : ℕ} {r s : Region} (hr : r.blocks ≠ []) (hs : s.blocks ≠ [])
    (hrShows : ∀ b ∈ r.blocks, ShowsBlock n b) (hsShows : ∀ c ∈ s.blocks, ShowsBlock m c)
    (h : ∀ b ∈ r.blocks, ∀ c ∈ s.blocks, ∀ o ∈ b.operations, ∀ o' ∈ c.operations,
      Told f n m (level + 1) o o') {x y : List Char} (hx : Begins level ['}'] x)
    (hy : Begins level ['}'] y) (heq : regionChars n level r ++ x = regionChars m level s ++ y) :
    r.rename f = s ∧ x = y := by
  obtain ⟨b, bs, hbs⟩ := List.exists_cons_of_ne_nil hr
  obtain ⟨c, cs, hcs⟩ := List.exists_cons_of_ne_nil hs
  rw [regionChars, regionChars, hbs, hcs, List.zipIdx_cons, List.zipIdx_cons, List.flatMap_cons,
    List.flatMap_cons, List.append_assoc, List.append_assoc] at heq
  rw [hbs] at hrShows h
  rw [hcs] at hsShows h
  obtain ⟨hfirst, heq⟩ := first_append_inj hn hm hf (hrShows b (by simp)) (hsShows c (by simp))
    (h b (by simp) c (by simp)) (continues_blocks bs hx) (continues_blocks cs hy) heq
  -- all other blocks have labels
  have hlabel {bs : List Block} {p : Block × ℕ} (hp : p ∈ bs.zipIdx 1) :
      ¬(p.2 = 0 ∧ p.1.arguments.isEmpty = true) := by
    have hle := List.le_snd_of_mem_zipIdx hp
    omega
  have hend {x : List Char} (hx : Begins level ['}'] x) :
      ¬Begins level ['^'] x ∧ Begins level ['^', '}'] x := by
    refine ⟨fun h => ?_, ?_⟩
    · exact absurd (hx.unique h (by decide) (by decide)).2 (by simp)
    · obtain ⟨d, hd, r, hr⟩ := hx
      exact ⟨d, .tail _ hd, r, hr⟩
  have hpq (z : List Char) (hz : Begins level ['^'] z) : Begins level ['^', '}'] z := by
    obtain ⟨d, hd, r, hr⟩ := hz
    exact ⟨d, by simp [List.mem_singleton.mp hd], r, hr⟩
  obtain ⟨hmap, hxy⟩ := flatMap_append_inj (g := fun p => p.1.rename f) (k := Prod.fst) hpq
    (hend hx) (hend hy) (fun p hp => begins_labelled n level (hlabel hp))
    (fun p hp => begins_labelled m level (hlabel hp))
    (fun p hp p' hp' x y hx hy heq => labelled_append_inj hn hm hf (hlabel hp) (hlabel hp')
      (hrShows p.1 (.tail _ (List.fst_mem_of_mem_zipIdx hp)))
      (hsShows p'.1 (.tail _ (List.fst_mem_of_mem_zipIdx hp')))
      (h p.1 (.tail _ (List.fst_mem_of_mem_zipIdx hp)) p'.1
        (.tail _ (List.fst_mem_of_mem_zipIdx hp'))) hx hy heq) heq
  have hrest : bs.map (Block.rename f) = cs := by
    rw [← List.zipIdx_map_fst 1 bs, List.map_map]
    rw [List.zipIdx_map_fst 1 cs] at hmap
    exact hmap
  exact ⟨rename_region_eq (by rw [hbs, List.map_cons, hfirst, hrest, hcs]), hxy⟩

/-! ### Reading programs -/

omit hn hm hf

lemma showsBlock {n : Names} {op : Operation} (h : ∀ o ∈ op.walk, Shows n o) {r : Region}
    (hr : r ∈ op.regions) {b : Block} (hb : b ∈ r.blocks) : ShowsBlock n b where
  arguments := (h op (Operation.self_mem_walk op)).arguments r hr b hb
  plain := (h op (Operation.self_mem_walk op)).plain.arguments r hr b hb
  results := fun c hc => (h c (Operation.walk_subset hr hb hc (Operation.self_mem_walk c))).results

lemma restChars_eq (n : Names) (level : ℕ) (rs : List Region) (op : Operation) (x : List Char) :
    restChars n level rs op ++ x =
      rs.flatMap (fun r =>
        margin level ++ (['}', ',', ' ', '{', '\n'] ++ regionChars n level r)) ++
      (margin level ++ '}' :: ')' :: (((located n).tail op).toList ++ '\n' :: x)) := by
  simp only [restChars, List.append_assoc, List.cons_append, List.nil_append]

lemma begins_restChars (n : Names) (level : ℕ) (rs : List Region) (op : Operation)
    (x : List Char) : Begins level ['}'] (restChars n level rs op ++ x) := by
  rw [restChars, List.append_assoc]
  cases rs with
  | nil =>
    exact ⟨'}', by decide, _, by rw [List.flatMap_nil, List.nil_append, List.append_assoc]; rfl⟩
  | cons r rs =>
    exact ⟨'}', by decide, _, by rw [List.flatMap_cons, List.append_assoc, List.append_assoc]; rfl⟩

lemma restChars_append_inj {level : ℕ} {a b : Operation} (ha : a.Plain) (hb : b.Plain)
    {rs ss : List Region}
    (h : ∀ r ∈ rs, ∀ s ∈ ss, ∀ x y, Begins level ['}'] x → Begins level ['}'] y →
      regionChars n level r ++ x = regionChars m level s ++ y → r.rename f = s ∧ x = y)
    {x y : List Char} (heq : restChars n level rs a ++ x = restChars m level ss b ++ y) :
    rs.map (Region.rename f) = ss ∧ a.attributes = b.attributes ∧ signature a = signature b ∧
      a.location = b.location ∧ x = y := by
  have hclosing (z : List Char) : ¬(∃ r, margin level ++ '}' :: ')' :: z =
        margin level ++ '}' :: ',' :: r) ∧
      Begins level ['}'] (margin level ++ '}' :: ')' :: z) := by
    refine ⟨fun ⟨r, hr⟩ => ?_, '}', by decide, _, rfl⟩
    have hnext := (margin_append_inj (by decide) (by decide) hr).2.2
    exact absurd (List.cons.inj hnext).1 (by decide)
  rw [restChars_eq, restChars_eq] at heq
  obtain ⟨hmap, heq⟩ := flatMap_append_inj (g := Region.rename f) (k := id)
    (p := fun z => ∃ r, z = margin level ++ '}' :: ',' :: r) (q := Begins level ['}'])
    (fun z ⟨r, hr⟩ => ⟨'}', by decide, _, hr⟩) (hclosing _) (hclosing _)
    (fun r _ z => ⟨_, by rw [List.append_assoc]; rfl⟩)
    (fun r _ z => ⟨_, by rw [List.append_assoc]; rfl⟩)
    (fun r hr s hs x y hx hy heq => by
      rw [List.append_assoc, List.append_assoc, List.append_assoc, List.append_assoc] at heq
      exact h r hr s hs x y hx hy (List.append_cancel_left (List.append_cancel_left heq))) heq
  have htail := (margin_append_inj (by decide) (by decide) heq).2.2
  obtain ⟨hattributes, hsignature, hlocation, hxy⟩ :=
    tail_append_inj ha hb (List.cons.inj htail).2
  exact ⟨by rw [hmap, List.map_id], hattributes, hsignature, hlocation, (List.cons.inj hxy).2⟩

lemma afterChars_append_inj {level : ℕ} {a b : Operation} (ha : a.Plain) (hb : b.Plain)
    (h : ∀ r ∈ a.regions, ∀ s ∈ b.regions, ∀ x y, Begins level ['}'] x → Begins level ['}'] y →
      regionChars n level r ++ x = regionChars m level s ++ y → r.rename f = s ∧ x = y)
    {x y : List Char} (heq : afterChars n level a ++ x = afterChars m level b ++ y) :
    a.regions.map (Region.rename f) = b.regions ∧ a.attributes = b.attributes ∧
      signature a = signature b ∧ a.location = b.location ∧ x = y := by
  have hparen {n : Names} {op : Operation} {x z : List Char} :
      ((located n).tail op).toList ++ x ≠ ' ' :: '(' :: z := by
    obtain ⟨c, r, hcr, hc⟩ := exists_tail_eq_cons n op
    rw [hcr]
    intro h
    rw [(List.cons.inj (List.cons.inj h).2).1] at hc
    exact absurd hc (by decide)
  unfold afterChars at heq
  cases hra : a.regions with
  | nil =>
    cases hrb : b.regions with
    | nil =>
      simp only [hra, hrb, List.append_assoc] at heq
      obtain ⟨hattributes, hsignature, hlocation, hxy⟩ := tail_append_inj ha hb heq
      exact ⟨rfl, hattributes, hsignature, hlocation, (List.cons.inj hxy).2⟩
    | cons s ss =>
      simp only [hra, hrb, List.append_assoc, List.cons_append] at heq
      exact absurd heq hparen
  | cons r rs =>
    cases hrb : b.regions with
    | nil =>
      simp only [hra, hrb, List.append_assoc, List.cons_append] at heq
      exact absurd heq.symm hparen
    | cons s ss =>
      simp only [hra, hrb, List.append_assoc, List.cons_append, List.cons.injEq, true_and] at heq
      rw [hra, hrb] at h
      obtain ⟨hfirst, heq⟩ := h r (by simp) s (by simp) _ _
        (begins_restChars n level rs a x) (begins_restChars m level ss b y) heq
      obtain ⟨hothers, htail⟩ := restChars_append_inj ha hb
        (fun r hr s hs => h r (.tail _ hr) s (.tail _ hs)) heq
      exact ⟨by rw [List.map_cons, hfirst, hothers], htail⟩

/-- **Reading an operation**: one in which everything is shown can be told from its text up to the
ids of values. -/
theorem told_of_shows (hn : n.Proper) (hm : m.Proper) (hf : Names.Transfers f n m) (level : ℕ)
    {a b : Operation} (ha : ∀ o ∈ a.walk, Shows n o) (hb : ∀ o ∈ b.walk, Shows m o) :
    Told f n m level a b := by
  induction a using Operation.nested_induction generalizing b level with
  | nest a ih =>
    intro x y heq
    obtain ⟨hplain, hresults, hoperands, -⟩ := ha a (Operation.self_mem_walk a)
    obtain ⟨hplain', hresults', hoperands', -⟩ := hb b (Operation.self_mem_walk b)
    have hregion : ∀ r ∈ a.regions, ∀ s ∈ b.regions, ∀ x y, Begins level ['}'] x →
        Begins level ['}'] y → regionChars n level r ++ x = regionChars m level s ++ y →
        r.rename f = s ∧ x = y := by
      intro r hr s hs x y hx hy heq
      exact regionChars_append_inj hn hm hf (hplain.blocks r hr) (hplain'.blocks s hs)
        (fun c hc => showsBlock ha hr hc) (fun c hc => showsBlock hb hs hc)
        (fun c hc c' hc' o ho o' ho' => ih r hr c hc o ho (level + 1)
          (fun p hp => ha p (Operation.walk_subset hr hc ho hp))
          (fun p hp => hb p (Operation.walk_subset hs hc' ho' hp))) hx hy heq
    rw [opChars_eq, opChars_eq] at heq
    simp only [List.append_assoc] at heq
    obtain ⟨hname, hnames, hnames', heq⟩ := head_append_inj hn hm hresults hoperands hresults'
      hoperands' (List.append_cancel_left heq)
    obtain ⟨hregions, hattributes, hsignature, hlocation, hxy⟩ :=
      afterChars_append_inj hplain hplain' hregion heq
    obtain ⟨htypes', htypes⟩ := Ty.function.inj hsignature
    exact ⟨rename_operation_eq hname
      (map_rename_eq hf hoperands hoperands' (map_pair_eq hnames' htypes'))
      (map_rename_eq hf hresults hresults' (map_pair_eq hnames htypes)) hattributes hregions
      hlocation, hxy⟩

end

end Print

/-! ### Clean programs -/

namespace IR.Operation

open OpTree.Print

lemma definitions_subset {op c : Operation} {r : Region} {b : Block} (hr : r ∈ op.regions)
    (hb : b ∈ r.blocks) (hc : c ∈ b.operations) : definitions c ⊆ definitions op := by
  intro d hd
  rw [definitions]
  refine List.mem_append_right _ (List.mem_flatMap.mpr ⟨r, hr, List.mem_flatMap.mpr ⟨b, hb, ?_⟩⟩)
  exact List.mem_append_right _ (List.mem_flatMap.mpr ⟨c, hc, hd⟩)

lemma definitions_subset_of_walk {root op : Operation} (h : op ∈ root.walk) :
    definitions op ⊆ definitions root := by
  induction root using children_induction with
  | nest root ih =>
    rw [walk_eq] at h
    rcases List.mem_cons.mp h with rfl | h
    · exact List.Subset.refl _
    · obtain ⟨c, hc, h⟩ := List.mem_flatMap.mp h
      obtain ⟨r, hr, b, hb, hcb⟩ := mem_children.mp hc
      exact List.Subset.trans (ih c hc h) (definitions_subset hr hb hcb)

lemma result_mem_definitions {op : Operation} {v : Value} (hv : v ∈ op.results) :
    .result v.id ∈ definitions op := by
  rw [definitions]
  exact List.mem_append_left _ (List.mem_map.mpr ⟨v, hv, rfl⟩)

lemma argument_mem_definitions {op : Operation} {r : Region} {b : Block} {v : Value}
    (hr : r ∈ op.regions) (hb : b ∈ r.blocks) (hv : v ∈ b.arguments) :
    .argument v.id ∈ definitions op := by
  rw [definitions]
  refine List.mem_append_right _ (List.mem_flatMap.mpr ⟨r, hr, List.mem_flatMap.mpr ⟨b, hb, ?_⟩⟩)
  exact List.mem_append_left _ (List.mem_map.mpr ⟨v, hv, rfl⟩)

lemma exists_of_mem_ids {op : Operation} {i : ValueId} (hi : i ∈ op.ids) :
    (∃ o ∈ op.walk, ∃ v ∈ o.operands, v.id = i) ∨ ∃ d ∈ definitions op, d.id = i := by
  induction op using nested_induction with
  | nest op ih =>
    rw [ids] at hi
    rcases List.mem_append.mp hi with hi | hi
    · rcases List.mem_append.mp hi with hi | hi
      · obtain ⟨v, hv, rfl⟩ := List.mem_map.mp hi
        exact .inr ⟨_, result_mem_definitions hv, rfl⟩
      · obtain ⟨v, hv, rfl⟩ := List.mem_map.mp hi
        exact .inl ⟨op, self_mem_walk op, v, hv, rfl⟩
    · obtain ⟨r, hr, hi⟩ := List.mem_flatMap.mp hi
      obtain ⟨b, hb, hi⟩ := List.mem_flatMap.mp hi
      rcases List.mem_append.mp hi with hi | hi
      · obtain ⟨v, hv, rfl⟩ := List.mem_map.mp hi
        exact .inr ⟨_, argument_mem_definitions hr hb hv, rfl⟩
      · obtain ⟨c, hc, hi⟩ := List.mem_flatMap.mp hi
        rcases ih r hr b hb c hc hi with ⟨o, ho, hused⟩ | ⟨d, hd, rfl⟩
        · exact .inl ⟨o, walk_subset hr hb hc ho, hused⟩
        · exact .inr ⟨d, definitions_subset hr hb hc hd, rfl⟩

namespace Clean

variable {root : Operation} (h : root.Clean)

include h

lemma mem_definitions {i : ValueId} (hi : i ∈ root.ids) :
    i ∈ (definitions root).map Definition.id := by
  rcases exists_of_mem_ids hi with ⟨o, ho, v, hv, rfl⟩ | ⟨d, hd, rfl⟩
  · exact h.defined o ho v hv
  · exact List.mem_map_of_mem hd

lemma shows {op : Operation} (hop : op ∈ root.walk) : Shows (.ofOperation root) op := by
  have hentries : (Names.ofOperation root).entries.map Prod.fst =
      (definitions root).map Definition.id := map_fst_numbered 0 0 _
  have hdefined {d : Definition} (hd : d ∈ definitions op) :
      d.id ∈ (Names.ofOperation root).entries.map Prod.fst := by
    rw [hentries]
    exact List.mem_map_of_mem (definitions_subset_of_walk hop hd)
  refine ⟨h.plain op hop, fun v hv => hdefined (result_mem_definitions hv), fun v hv => ?_,
    fun r hr b hb v hv => hdefined (argument_mem_definitions hr hb hv)⟩
  rw [hentries]
  exact h.defined op hop v hv

end Clean

end IR.Operation

open OpTree.Print

/-- **The text form identifies a program.** If two clean programs have the same text, printed with
locations, then the second is the first with its ids renamed, and the renaming keeps ids apart. -/
theorem exists_rename_of_text_eq {a b : Operation} (ha : a.Clean) (hb : b.Clean) {ansi ansi' : Bool}
    (h : text ansi { debugInfo := true } a = text ansi' { debugInfo := true } b) :
    ∃ f : ValueId → ValueId, Set.InjOn f {i | i ∈ a.ids} ∧ b = a.rename f := by
  have hproper (op : Operation) := Names.proper_ofOperation op
  obtain ⟨f, hf⟩ : ∃ f, Names.Transfers f (.ofOperation a) (.ofOperation b) :=
    ⟨_, (hproper b).transfers_transfer _⟩
  have htold := told_of_shows (hproper a) (hproper b) hf 0 (fun o ho => ha.shows ho)
    fun o ho => hb.shows ho
  rw [← String.toList_inj, toList_text, toList_text] at h
  obtain ⟨hrename, -⟩ := htold [] [] (congrArg (· ++ []) h)
  -- the definitions of the second program are those of the first renamed, and all different
  have hids : Definition.id ∘ Definition.rename f = f ∘ Definition.id := by
    funext d
    cases d <;> rfl
  have hnodup := hb.nodup
  rw [← hrename, definitions_rename, List.map_map, hids, ← List.map_map] at hnodup
  refine ⟨f, fun i hi j hj hij => ?_, hrename.symm⟩
  exact List.inj_on_of_nodup_map hnodup (ha.mem_definitions hi) (ha.mem_definitions hj) hij

/-- An operation that uses a value twice and has a result. -/
def double (i j : ValueId) : Operation where
  name := "add"
  operands := [⟨i, .tensor [-1, 2] .f32⟩, ⟨i, .tensor [-1, 2] .f32⟩]
  results := [⟨j, .index⟩]
  attributes := { entries := [("by", .dense (.tensor [2] .index) [3, 4])] }
  location := .fileLineCol "a.ir" 3 4

/-- A program in which an argument is used for a result. -/
def doubling (i j : ValueId) : Operation where
  name := "func"
  attributes := { entries := [("sym_name", .string "twice"), ("entry", .unit)], nodup := by decide }
  regions := [{ blocks := [{
    arguments := [⟨i, .tensor [-1, 2] .f32⟩]
    operations := [double i j] }] }]

lemma clean_doubling {i j : ValueId} (h : i ≠ j) : (doubling i j).Clean := by
  have hdefinitions : (definitions (doubling i j)).map Definition.id = [i, j] := by
    simp [doubling, double, definitions, Definition.id]
  have hwalk : (doubling i j).walk = [doubling i j, double i j] := by
    simp [doubling, double, Operation.walk]
  refine ⟨?_, ?_, ?_⟩
  · rw [hdefinitions]
    simpa using h
  · rw [hdefinitions, hwalk]
    simp [doubling, double]
  · rw [hwalk]
    simp only [List.forall_mem_cons]
    refine ⟨⟨?_, ?_, ?_, ?_, ?_, ?_, ?_⟩, ⟨?_, ?_, ?_, ?_, ?_, ?_, ?_⟩, by simp⟩
    all_goals simp [doubling, double, IsWord, Attribute.leaves, Attribute.Plain, Ty.Plain,
      Ty.dimensions, Location.names]
    all_goals decide

theorem exists_rename_of_text_eq_doubling :
    (doubling ⟨1⟩ ⟨2⟩).Clean ∧ (doubling ⟨2⟩ ⟨1⟩).Clean ∧
    text true { debugInfo := true } (doubling ⟨1⟩ ⟨2⟩) =
      text true { debugInfo := true } (doubling ⟨2⟩ ⟨1⟩) ∧
    ∃ f : ValueId → ValueId, Set.InjOn f {i | i ∈ (doubling ⟨1⟩ ⟨2⟩).ids} ∧
      doubling ⟨2⟩ ⟨1⟩ = (doubling ⟨1⟩ ⟨2⟩).rename f := by
  have hfirst : (doubling ⟨1⟩ ⟨2⟩).Clean := clean_doubling (by decide)
  have hsecond : (doubling ⟨2⟩ ⟨1⟩).Clean := clean_doubling (by decide)
  have htext : text true { debugInfo := true } (doubling ⟨1⟩ ⟨2⟩) =
      text true { debugInfo := true } (doubling ⟨2⟩ ⟨1⟩) := by
    simp [text, Print.lines, Session.ofOperation, Session.lines, Session.blockLines,
      Session.labelLines, Session.labelText, Session.argumentText, Session.head, Session.tail,
      Session.nameList, Session.locationText, Session.usersComment, Names.ofOperation, Names.name,
      Names.find?, definitions, numbered, attributesText, signature, doubling, double]
  exact ⟨hfirst, hsecond, htext, exists_rename_of_text_eq hfirst hsecond htext⟩

end OpTree
