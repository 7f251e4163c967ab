import OpTree.Proofs.Controls
import OpTree.Proofs.Layout

/-!
Colours on a terminal. A text in which styles are started and ended is cut into its characters and
the sequences between them. The text of a program in colours has the characters of the text without
them, and every colour that is started in it is ended before the next one and before the line ends.
What is coloured are quoted names and the users of results; quoting leaves no escape character in
them, so nothing is started again inside.
-/

namespace OpTree

open OpTree.IR OpTree.Text

namespace Print

lemma isControl_escape : IsControl '\x1b' := by decide

/-! ### The pieces of a text -/

/-- A piece of a text on a terminal. -/
inductive Piece
  | char (c : Char)
  /-- A sequence that sets a style, given by what stands between its bracket and its last letter. -/
  | style (codes : List Char)
  deriving DecidableEq

def Piece.char? : Piece → Option Char
  | char c => some c
  | style _ => none

/-- The pieces of a text, if `none` is given; of what stands behind the beginning of a sequence, if
its first codes are given. What never ends is no sequence. -/
def pieces : Option (List Char) → List Char → List Piece
  | none, '\x1b' :: '[' :: r => pieces (some []) r
  | none, c :: r => .char c :: pieces none r
  | none, [] => []
  | some codes, 'm' :: r => .style codes :: pieces none r
  | some codes, c :: r => pieces (some (codes ++ [c])) r
  | some codes, [] => ('\x1b' :: '[' :: codes).map .char

/-- What a terminal shows of a text: its characters without the sequences between them. -/
def shown (s : String) : String := String.ofList ((pieces none s.toList).filterMap Piece.char?)

/-- Each colour that is started is ended by a reset, before another one is started and before the
line ends, and nothing else sets a style. -/
inductive Closed : List Piece → Prop
  | nil : Closed []
  | char (c : Char) {l : List Piece} (h : Closed l) : Closed (.char c :: l)
  | colour (c : Color) {inner : List Char} (hinner : '\n' ∉ inner) {l : List Piece}
      (h : Closed l) : Closed (.style c.code.toList :: (inner.map .char ++ .style ['0'] :: l))

lemma pieces_char {c : Char} (hc : c ≠ '\x1b') (s : List Char) :
    pieces none (c :: s) = .char c :: pieces none s := by
  rw [pieces]
  simp [hc]

lemma pieces_append {s : List Char} (hs : '\x1b' ∉ s) (r : List Char) :
    pieces none (s ++ r) = s.map .char ++ pieces none r := by
  induction s with
  | nil => rfl
  | cons c s ih =>
    rw [List.mem_cons, not_or] at hs
    rw [List.cons_append, pieces_char (Ne.symm hs.1), ih hs.2]
    rfl

lemma pieces_codes {codes : List Char} (hcodes : 'm' ∉ codes) (before r : List Char) :
    pieces (some before) (codes ++ 'm' :: r) = .style (before ++ codes) :: pieces none r := by
  induction codes generalizing before with
  | nil => rw [List.nil_append, pieces, List.append_nil]
  | cons c codes ih =>
    rw [List.mem_cons, not_or] at hcodes
    have hne : ¬ c = 'm' := Ne.symm hcodes.1
    rw [List.cons_append, pieces, ih hcodes.2, List.append_assoc]
    · rfl
    · simp [hne]

/-! ### Texts in colours -/

/-- The first text is the second one with parts of it in colours, each within a line. -/
inductive Painted : List Char → List Char → Prop
  | nil : Painted [] []
  | char {c : Char} (hc : c ≠ '\x1b') {s t : List Char} (h : Painted s t) :
      Painted (c :: s) (c :: t)
  | colour (c : Color) {inner : List Char} (hescape : '\x1b' ∉ inner) (hline : '\n' ∉ inner)
      {s t : List Char} (h : Painted s t) :
      Painted ('\x1b' :: '[' :: (c.code.toList ++ 'm' :: (inner ++ (reset ++ s)))) (inner ++ t)

namespace Painted

variable {s s' t t' : List Char}

lemma pieces_colour (c : Color) {inner : List Char} (hinner : '\x1b' ∉ inner) (s : List Char) :
    pieces none ('\x1b' :: '[' :: (c.code.toList ++ 'm' :: (inner ++ (reset ++ s)))) =
      .style c.code.toList :: (inner.map .char ++ .style ['0'] :: pieces none s) := by
  have hcode : 'm' ∉ c.code.toList := by cases c <;> decide
  have hreset : pieces none (reset ++ s) = .style ['0'] :: pieces none s :=
    pieces_codes (by decide : 'm' ∉ ['0']) [] s
  rw [pieces, pieces_codes hcode, pieces_append hinner, hreset, List.nil_append]

lemma filterMap_char? (h : Painted s t) : (pieces none s).filterMap Piece.char? = t := by
  have hchars (l : List Char) : (l.map Piece.char).filterMap Piece.char? = l := by
    rw [List.filterMap_map]
    exact List.filterMap_some
  induction h with
  | nil => rfl
  | char hc _ ih =>
    rw [pieces_char hc, List.filterMap_cons, ih]
    rfl
  | colour c hescape _ _ ih =>
    rw [pieces_colour c hescape, List.filterMap_cons, List.filterMap_append, hchars,
      List.filterMap_cons, ih]
    rfl

lemma closed (h : Painted s t) : Closed (pieces none s) := by
  induction h with
  | nil => exact .nil
  | char hc _ ih =>
    rw [pieces_char hc]
    exact .char _ ih
  | colour c hescape hline _ ih =>
    rw [pieces_colour c hescape]
    exact .colour c hline ih

lemma refl (hs : '\x1b' ∉ s) : Painted s s := by
  induction s with
  | nil => exact .nil
  | cons c s ih =>
    rw [List.mem_cons, not_or] at hs
    exact .char (Ne.symm hs.1) (ih hs.2)

lemma append (h : Painted s t) (h' : Painted s' t') : Painted (s ++ s') (t ++ t') := by
  induction h with
  | nil => exact h'
  | char hc _ ih => exact .char hc ih
  | colour c hescape hline _ ih =>
    have hpainted := Painted.colour c hescape hline ih
    simpa only [List.cons_append, List.append_assoc] using hpainted

end Painted

/-- The first text is the second one with parts of it in colours. -/
def Paints (s t : String) : Prop := Painted s.toList t.toList

namespace Paints

variable {s s' t t' : String}

lemma refl (hs : countOf '\x1b' s = 0) : Paints s s := Painted.refl ((countOf_eq_zero _).mp hs)

lemma of_controlFree (hs : ControlFree s) : Paints s s := refl (hs.countOf_eq_zero isControl_escape)

lemma append (h : Paints s t) (h' : Paints s' t') : Paints (s ++ s') (t ++ t') := by
  unfold Paints
  rw [String.toList_append, String.toList_append]
  exact Painted.append h h'

lemma join {α : Type} {l : List α} {g g' : α → String} (h : ∀ a ∈ l, Paints (g a) (g' a)) :
    Paints (String.join (l.map g)) (String.join (l.map g')) := by
  induction l with
  | nil => exact of_controlFree (s := "") (by decide)
  | cons a l ih =>
    rw [List.map_cons, List.map_cons, String.join_cons, String.join_cons]
    exact (h a (.head _)).append (ih fun b hb => h b (.tail _ hb))

lemma shown_eq (h : Paints s t) : shown s = t := by
  rw [shown, Painted.filterMap_char? h, String.ofList_toList]

end Paints

lemma reopen_eq_self {start s : List Char} (hs : '\x1b' ∉ s) : reopen start s = s := by
  fun_induction reopen start s with
  | case1 => simp at hs
  | case2 c r _ ih =>
    rw [List.mem_cons, not_or] at hs
    rw [ih hs.2]
  | case3 => rfl

lemma paints_paint (c : Color) {s : String} (hs : ControlFree s) :
    Paints (paint true c s) (paint false c s) := by
  have hescape : '\x1b' ∉ s.toList := fun hmem => hs _ hmem isControl_escape
  have hline : '\n' ∉ s.toList := fun hmem => hs _ hmem (by decide)
  have hpainted := Painted.colour c hescape hline .nil
  unfold Paints paint styled
  -- Without escape characters there is no reset inside behind which to start again.
  rw [if_pos rfl, if_neg Bool.false_ne_true, String.toList_ofList, reopen_eq_self hescape]
  simpa only [List.cons_append, List.append_assoc, List.append_nil, List.nil_append] using hpainted

/-! ### Programs in colours -/

lemma countOf_description {c : Char} (hc : IsControl c) (f : Flags) (op : Operation) :
    countOf c (description f op) =
      countAll c (op.attributes.entries.flatMap fun e => e.1 :: e.2.symbols) := by
  rw [description, countOf_append, countOf_append, countOf_attributesPart hc,
    (signature op).controlFree_text.countOf_eq_zero hc,
    (by decide : ControlFree " : ").countOf_eq_zero hc]
  rfl

def Flags.coloured (f : Flags) : Flags := { f with useColors := true }

def Flags.uncoloured (f : Flags) : Flags := { f with useColors := false }

section

variable (ansi : Bool) (f : Flags) (root : Operation)

lemma countOf_name (v : Value) :
    countOf '\x1b' ((Session.ofOperation ansi f root).names.name v) = 0 := by
  have hname : ControlFree ((Session.ofOperation ansi f root).names.name v) :=
    controlFree_name_ofOperation root v
  exact hname.countOf_eq_zero isControl_escape

lemma paints_nameList (vs : List Value) :
    Paints ((Session.ofOperation true f.coloured root).nameList vs)
      ((Session.ofOperation ansi f.uncoloured root).nameList vs) := by
  have hsame : (Session.ofOperation true f.coloured root).nameList vs =
      (Session.ofOperation ansi f.uncoloured root).nameList vs := rfl
  rw [hsame]
  exact .refl (countOf_nameList isControl_escape (countOf_name ansi f.uncoloured root) vs)

lemma paints_head (op : Operation) :
    Paints ((Session.ofOperation true f.coloured root).head op)
      ((Session.ofOperation ansi f.uncoloured root).head op) := by
  -- The name is quoted before it is coloured.
  have hname := paints_paint .cyan (controlFree_quote op.name)
  have hoperands := paints_nameList ansi f root op.operands
  rw [Session.head, Session.head]
  refine (((Paints.append ?_ hname).append ?_).append hoperands).append ?_
  · split
    · exact .of_controlFree (by decide)
    · exact (paints_nameList ansi f root op.results).append (.of_controlFree (by decide))
  · exact .of_controlFree (by decide)
  · exact .of_controlFree (by decide)

lemma paints_remark {op : Operation} (hop : ∀ n ∈ op.bareNames f, '\x1b' ∉ n.toList) :
    Paints (remark true f.coloured root op) (remark ansi f.uncoloured root op) := by
  have hlocation : countOf '\x1b' (if f.debugInfo then " loc(" ++ op.location.text ++ ")" else "")
      = 0 := by
    split
    · rename_i hdebug
      rw [countOf_between isControl_escape (by decide) (by decide),
        Location.countOf_text isControl_escape, countAll_eq_zero]
      refine fun n hn => hop n (List.mem_append_right _ ?_)
      rwa [if_pos hdebug]
    · rfl
  refine (Paints.refl hlocation).append ?_
  unfold Flags.coloured Flags.uncoloured
  dsimp only
  split
  · refine paints_paint .brightBlack (controlFree_append.mpr ⟨by decide, ?_⟩)
    exact controlFree_commaList controlFree_of_mem_users
  · exact .of_controlFree (by decide)

lemma paints_tail {op : Operation} (hop : ∀ n ∈ op.bareNames f, '\x1b' ∉ n.toList) :
    Paints ((Session.ofOperation true f.coloured root).tail op)
      ((Session.ofOperation ansi f.uncoloured root).tail op) := by
  have hdescription : countOf '\x1b' (description f op) = 0 := by
    rw [countOf_description isControl_escape, countAll_eq_zero]
    exact fun n hn => hop n (List.mem_append_left _ hn)
  have hsame (g : Flags) (hg : g.elideAbove = f.elideAbove) :
      description g op = description f op := description_congr hg op
  rw [tail_eq_remark, tail_eq_remark, hsame f.coloured rfl, hsame f.uncoloured rfl]
  exact (Paints.refl hdescription).append (paints_remark ansi f root hop)

lemma paints_front (p : Slot) :
    Paints (p.front (.ofOperation true f.coloured root))
      (p.front (.ofOperation ansi f.uncoloured root)) := by
  cases p with
  | whole op =>
    have hhead := paints_head ansi f root op
    have hdots : ControlFree (Ty.commaList (op.regions.map fun _ => "\x7b...\x7d")) :=
      controlFree_commaList (List.forall_mem_map.mpr fun _ _ => by decide)
    rw [Slot.front, Slot.front]
    split
    · exact hhead
    · refine ((hhead.append ?_).append (.of_controlFree hdots)).append ?_
      · exact .of_controlFree (by decide)
      · exact .of_controlFree (by decide)
  | opening op =>
    rw [Slot.front, Slot.front]
    exact (paints_head ansi f root op).append (.of_controlFree (by decide))
  | separator => exact .of_controlFree (s := "\x7d, \x7b") (by decide)
  | label index b =>
    have hsame : (Slot.label index b).front (.ofOperation true f.coloured root) =
        (Slot.label index b).front (.ofOperation ansi f.uncoloured root) := rfl
    rw [hsame]
    exact .refl (countOf_labelText isControl_escape (countOf_name ansi f.uncoloured root) index b)
  | closing op => exact .of_controlFree (s := "\x7d)") (by decide)

lemma paints_line {p : ℕ × Slot}
    (hp : ∀ o ∈ p.2.ended?, ∀ n ∈ o.bareNames f, '\x1b' ∉ n.toList) :
    Paints (((Session.ofOperation true f.coloured root).line p).render f.indent.unit)
      (((Session.ofOperation ansi f.uncoloured root).line p).render f.indent.unit) := by
  have hback : Paints (p.2.back (.ofOperation true f.coloured root))
      (p.2.back (.ofOperation ansi f.uncoloured root)) := by
    unfold Slot.back
    cases hended : p.2.ended? with
    | none => exact .of_controlFree (s := "") (by decide)
    | some o => exact paints_tail ansi f root (hp o hended)
  have hunit : '\x1b' ∉ f.indent.unit.toList := by
    cases f.indent with
    | spaces n => simp [IndentStyle.unit]
    | tabs => decide
  have hmargin : countOf '\x1b' (String.join (List.replicate p.1 f.indent.unit)) = 0 := by
    rw [countOf_join, countAll_eq_zero]
    intro u hu
    rwa [List.eq_of_mem_replicate hu]
  have hend : Paints "\n" "\n" := .refl (by decide)
  exact ((Paints.refl hmargin).append ((paints_front ansi f root p.2).append hback)).append hend

/-- **Colours add nothing but the sequences that set them.** If no name that is printed as it is
holds an escape character, a terminal shows of the text of a program in colours what is printed
without them, and each colour that is started is ended before the next one and on its line. Names
of operations and quoted texts may hold anything. -/
theorem colours_are_closed
    (h : ∀ o ∈ printed f root, ∀ n ∈ o.bareNames f, '\x1b' ∉ n.toList) :
    shown (text true f.coloured root) = text ansi f.uncoloured root ∧
      Closed (pieces none (text true f.coloured root).toList) := by
  have hpaints : Paints (text true f.coloured root) (text ansi f.uncoloured root) := by
    rw [text_eq_slots, text_eq_slots]
    refine Paints.join fun p hp => paints_line ansi f root fun o ho => h o ?_
    exact exists_ended?_iff.mp ⟨p, hp, ho⟩
  exact ⟨hpaints.shown_eq, Painted.closed hpaints⟩

end

/-- Names and quoted texts in which colours are started and ended, one of them among the users. -/
theorem colours_are_closed_escaped :
    let f : Flags := { valueUsers := true }
    let op : Operation := {
      name := "a\x1b[0mb"
      results := [⟨⟨0⟩, .index⟩]
      attributes := { entries := [("note", .string "\x1b[31m")] }
      regions := [{ blocks := [{ operations :=
        [{ name := "\x1b[0m", operands := [⟨⟨0⟩, .index⟩] }] }] }] }
    (∀ o ∈ printed f op, ∀ n ∈ o.bareNames f, '\x1b' ∉ n.toList) ∧
      shown (text true f.coloured op) = text false f.uncoloured op ∧
      Closed (pieces none (text true f.coloured op).toList) := by
  intro f op
  have hnames : ∀ o ∈ printed f op, ∀ n ∈ o.bareNames f, '\x1b' ∉ n.toList := by
    simp [f, op, printed, Operation.walk, Operation.bareNames, Attribute.symbols, Attribute.leaves,
      Data.OrderedMap.empty]
  exact ⟨hnames, colours_are_closed false f op hnames⟩

end Print

end OpTree
