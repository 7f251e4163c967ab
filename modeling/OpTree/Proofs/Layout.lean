import OpTree.Proofs.LineFrames

/-!
The layout of a program: which lines there are, how deep each stands, and which operation ends with
it. All this is read off the tree; a session decides only what is written there. So two sessions
that show the same regions can be compared line by line.
-/

namespace OpTree

open OpTree.IR

namespace Print

/-! ### What flags decide -/

/-- What is written of an operation behind its regions in any case: its attributes and its
signature. -/
def description (f : Flags) (op : Operation) : String :=
  let attributes := attributesText f op
  (if attributes.isEmpty then "" else " " ++ attributes) ++ " : " ++ (signature op).text

lemma tail_eq_description (s : Session) (op : Operation) :
    s.tail op = description s.flags op ++ s.locationText op ++ s.usersComment op := rfl

section

variable {f f' : Flags} (h : f.elideAbove = f'.elideAbove)

include h

lemma attributeText_congr (a : Attribute) : attributeText f a = attributeText f' a := by
  induction a using Attribute.nested_induction with
  | array items ih => rw [attributeText, attributeText, List.map_congr_left ih]
  | dense ty values =>
    have helides : f.elides values.length = f'.elides values.length := by
      rw [Flags.elides, Flags.elides, h]
    rw [attributeText, attributeText, denseText, denseText, helides]
  | _ => simp only [attributeText]

lemma description_congr (op : Operation) : description f op = description f' op := by
  have hentry : entryText f = entryText f' := funext fun e => by
    rw [entryText, entryText, attributeText_congr h]
  rw [description, description, attributesText, attributesText, hentry]

end

/-! ### The layout -/

/-- What a line is for. -/
inductive Slot
  | whole (op : Operation)
  | opening (op : Operation)
  | separator
  | label (index : ℕ) (b : Block)
  | closing (op : Operation)

namespace Slot

def role : Slot → Line.Role
  | whole _ => .whole
  | opening _ => .opening
  | separator => .separator
  | label .. => .label
  | closing _ => .closing

def ended? : Slot → Option Operation
  | whole op => some op
  | closing op => some op
  | _ => none

/-- What stands on the line in front of what ends an operation. -/
def front (s : Session) : Slot → String
  | whole op =>
    if op.regions.isEmpty then s.head op
    else s.head op ++ " (" ++ Ty.commaList (op.regions.map fun _ => "\x7b...\x7d") ++ ")"
  | opening op => s.head op ++ " (\x7b"
  | separator => "\x7d, \x7b"
  | label index b => s.labelText index b
  | closing _ => "\x7d)"

/-- What ends an operation, if one ends with the line. -/
def back (s : Session) (p : Slot) : String := p.ended?.elim "" s.tail

end Slot

/-- The line that a session writes in a slot at a level. -/
def Session.line (s : Session) (p : ℕ × Slot) : Line :=
  ⟨p.1, p.2.role, p.2.front s ++ p.2.back s⟩

lemma Session.line_of_ended?_eq_none (s : Session) {p : ℕ × Slot} (hp : p.2.ended? = none) :
    s.line p = ⟨p.1, p.2.role, p.2.front s⟩ := by
  rw [line, Slot.back, hp, Option.elim_none, String.append_empty]

lemma Session.line_of_ended?_eq_some (s : Session) {p : ℕ × Slot} {op : Operation}
    (hp : p.2.ended? = some op) : s.line p = ⟨p.1, p.2.role, p.2.front s ++ s.tail op⟩ := by
  rw [line, Slot.back, hp, Option.elim_some]

/-- The first block of a region has a label only for its arguments. -/
def labelSlots (level index : ℕ) (b : Block) : List (ℕ × Slot) :=
  if index = 0 ∧ b.arguments.isEmpty then [] else [(level, .label index b)]

/-- The layout of an operation that stands at a level, with its regions or without them. -/
def slots (skip : Bool) (level : ℕ) (op : Operation) : List (ℕ × Slot) :=
  if op.regions.isEmpty || skip then [(level, .whole op)]
  else
    (level, .opening op) ::
      ([(level, .separator)].intercalate (op.regions.map fun r =>
        (r.blocks.map fun b => (b, b.operations.flatMap (slots skip (level + 1)))).zipIdx.flatMap
          fun p => labelSlots level p.2 p.1.1 ++ p.1.2) ++
        [(level, .closing op)])
termination_by op
decreasing_by exact Operation.sizeOf_lt ‹_› ‹_› ‹_›

def regionSlots (skip : Bool) (level : ℕ) (r : Region) : List (ℕ × Slot) :=
  r.blocks.zipIdx.flatMap fun p =>
    labelSlots level p.2 p.1 ++ p.1.operations.flatMap (slots skip (level + 1))

lemma slots_of_hidden {skip : Bool} {op : Operation} (h : op.regions.isEmpty || skip)
    (level : ℕ) : slots skip level op = [(level, .whole op)] := by
  rw [slots, if_pos h]

lemma slots_of_shown {skip : Bool} {op : Operation} (h : ¬ (op.regions.isEmpty || skip) = true)
    (level : ℕ) : slots skip level op =
      (level, .opening op) ::
        ([(level, .separator)].intercalate (op.regions.map (regionSlots skip level)) ++
          [(level, .closing op)]) := by
  have hregion (r : Region) :
      ((r.blocks.map fun b => (b, b.operations.flatMap (slots skip (level + 1)))).zipIdx.flatMap
        fun p => labelSlots level p.2 p.1.1 ++ p.1.2) = regionSlots skip level r := by
    rw [List.zipIdx_map, List.flatMap_map]
    rfl
  rw [slots, if_neg h, funext hregion]

/-! ### Lines of the layout -/

lemma map_intercalate {α β : Type} (g : α → β) (sep : List α) (ls : List (List α)) :
    (sep.intercalate ls).map g = (sep.map g).intercalate (ls.map (List.map g)) := by
  cases ls with
  | nil => rfl
  | cons l ls =>
    rw [List.map_cons, Text.intercalate_cons, Text.intercalate_cons, List.map_append,
      List.map_flatMap, List.flatMap_map]
    simp only [List.map_append]

section

variable (s : Session)

lemma map_line_labelSlots (level index : ℕ) (b : Block) :
    (labelSlots level index b).map s.line = s.labelLines level index b := by
  rw [labelSlots, Session.labelLines]
  split
  · rfl
  · rw [List.map_singleton, s.line_of_ended?_eq_none rfl]
    rfl

lemma map_line_regionSlots {level : ℕ} {r : Region}
    (h : ∀ b ∈ r.blocks, ∀ c ∈ b.operations,
      s.lines (level + 1) c = (slots s.flags.skipRegions (level + 1) c).map s.line) :
    (regionSlots s.flags.skipRegions level r).map s.line = s.regionLines level r := by
  rw [regionLines_eq, regionSlots, List.map_flatMap]
  refine List.flatMap_congr fun p hp => ?_
  rw [List.map_append, map_line_labelSlots, List.map_flatMap]
  exact congrArg _ (List.flatMap_congr fun c hc =>
    (h p.1 (List.fst_mem_of_mem_zipIdx hp) c hc).symm)

/-- **A session writes the lines of the layout.** -/
theorem lines_eq_slots (level : ℕ) (op : Operation) :
    s.lines level op = (slots s.flags.skipRegions level op).map s.line := by
  induction op using Operation.nested_induction generalizing level with
  | nest op ih =>
    by_cases hhidden : (op.regions.isEmpty || s.flags.skipRegions) = true
    · rw [slots_of_hidden hhidden, List.map_singleton, s.line_of_ended?_eq_some rfl, Slot.front,
        Session.lines]
      split
      · rfl
      · rename_i hregions
        rw [if_pos (by simpa [hregions] using hhidden)]
        rfl
    · have hregion : ∀ r ∈ op.regions,
          s.regionLines level r = (regionSlots s.flags.skipRegions level r).map s.line :=
        fun r hr => (map_line_regionSlots s fun b hb c hc => ih r hr b hb c hc (level + 1)).symm
      simp only [Bool.or_eq_true, not_or, Bool.not_eq_true] at hhidden
      rw [slots_of_shown (by simp [hhidden]), Session.lines_of_regions hhidden.2 level
        (by simpa using hhidden.1), List.map_congr_left hregion, List.map_cons, List.map_append,
        map_intercalate, List.map_map, List.map_singleton, List.map_singleton,
        s.line_of_ended?_eq_none rfl, s.line_of_ended?_eq_none rfl, s.line_of_ended?_eq_some rfl]
      rfl

end

/-! ### Operations that end -/

lemma filterMap_intercalate {α β : Type} {g : α → Option β} {sep : List α}
    (hsep : sep.filterMap g = []) (ls : List (List α)) :
    (sep.intercalate ls).filterMap g = ls.flatMap (List.filterMap g) := by
  cases ls with
  | nil => rfl
  | cons l ls =>
    rw [Text.intercalate_cons, List.filterMap_append, List.filterMap_flatMap, List.flatMap_cons]
    simp only [List.filterMap_append, hsep, List.nil_append]

section

variable {β : Type} {g : Slot → Option β} (hlabel : ∀ index b, g (.label index b) = none)

include hlabel

lemma filterMap_regionSlots (skip : Bool) (level : ℕ) (r : Region) :
    (regionSlots skip level r).filterMap (fun p => g p.2) = r.blocks.flatMap fun b =>
      b.operations.flatMap fun c =>
        (slots skip (level + 1) c).filterMap fun p => g p.2 := by
  have hnone (index : ℕ) (b : Block) :
      (labelSlots level index b).filterMap (fun p => g p.2) = [] := by
    rw [labelSlots]
    split
    · rfl
    · simp [hlabel]
  calc (regionSlots skip level r).filterMap (fun p => g p.2)
      = r.blocks.zipIdx.flatMap fun p => p.1.operations.flatMap fun c =>
          (slots skip (level + 1) c).filterMap fun p => g p.2 := by
        rw [regionSlots, List.filterMap_flatMap]
        refine List.flatMap_congr fun p _ => ?_
        rw [List.filterMap_append, hnone, List.filterMap_flatMap, List.nil_append]
    _ = _ := by rw [flatMap_eq_zipIdx _ r.blocks]

lemma filterMap_slots_of_shown (hseparator : g .separator = none) {skip : Bool} {op : Operation}
    (h : ¬ (op.regions.isEmpty || skip) = true) (level : ℕ) :
    (slots skip level op).filterMap (fun p => g p.2) =
      [Slot.opening op].filterMap g ++
        (op.children.flatMap fun c => (slots skip (level + 1) c).filterMap fun p => g p.2) ++
        [Slot.closing op].filterMap g := by
  have hsep : [(level, Slot.separator)].filterMap (fun p => g p.2) = [] := by simp [hseparator]
  have hregions : ([(level, Slot.separator)].intercalate
      (op.regions.map (regionSlots skip level))).filterMap (fun p => g p.2) =
      op.children.flatMap fun c => (slots skip (level + 1) c).filterMap fun p => g p.2 := by
    rw [filterMap_intercalate hsep, List.flatMap_map, Operation.children, List.flatMap_assoc]
    simp only [List.flatMap_assoc]
    exact List.flatMap_congr fun r _ => filterMap_regionSlots hlabel skip level r
  have hsplit : slots skip level op = [Slot.opening op].map (fun p => (level, p)) ++
      [(level, Slot.separator)].intercalate (op.regions.map (regionSlots skip level)) ++
        [Slot.closing op].map fun p => (level, p) :=
    slots_of_shown h level
  rw [hsplit, List.filterMap_append, List.filterMap_append, hregions, List.filterMap_map,
    List.filterMap_map]
  rfl

end

def endings (l : List (ℕ × Slot)) : List Operation := l.filterMap fun p => p.2.ended?

lemma endings_slots (skip : Bool) (level : ℕ) (op : Operation) :
    endings (slots skip level op) =
      (if skip then [] else op.children.flatMap fun c => endings (slots skip (level + 1) c)) ++
        [op] := by
  by_cases hhidden : (op.regions.isEmpty || skip) = true
  · have hnone : (if skip then [] else op.children.flatMap fun c =>
        endings (slots skip (level + 1) c)) = [] := by
      split
      · rfl
      · have hregions : op.regions = [] := by simp_all
        simp [Operation.children, hregions]
    rw [slots_of_hidden hhidden, hnone]
    rfl
  · have hskip : ¬ skip = true := by simp_all
    rw [if_neg hskip]
    exact filterMap_slots_of_shown (fun _ _ => rfl) rfl hhidden level

/-- **The operations that end with a line of the layout are those that are printed.** -/
theorem mem_endings_iff {f : Flags} {level : ℕ} {op o : Operation} :
    o ∈ endings (slots f.skipRegions level op) ↔ o ∈ printed f op := by
  induction op using Operation.children_induction generalizing level with
  | nest op ih =>
    rw [endings_slots, printed, List.mem_append, List.mem_singleton]
    split
    · simp
    · rename_i hskip
      rw [Operation.walk_eq, List.mem_cons, List.mem_flatMap, List.mem_flatMap, or_comm]
      refine or_congr_right (exists_congr fun c => and_congr_right fun hc => ?_)
      rw [ih c hc, printed, if_neg hskip]

lemma exists_ended?_iff {f : Flags} {level : ℕ} {op o : Operation} :
    (∃ p ∈ slots f.skipRegions level op, p.2.ended? = some o) ↔ o ∈ printed f op :=
  List.mem_filterMap.symm.trans mem_endings_iff

lemma text_eq_slots (ansi : Bool) (f : Flags) (root : Operation) :
    text ansi f root = String.join ((slots f.skipRegions 0 root).map fun p =>
      ((Session.ofOperation ansi f root).line p).render f.indent.unit) := by
  have hlines : lines ansi f root =
      (slots f.skipRegions 0 root).map (Session.ofOperation ansi f root).line :=
    lines_eq_slots (.ofOperation ansi f root) 0 root
  rw [text, hlines, List.map_map]
  rfl

/-! ### Locations and users -/

/-- What the last line of an operation says of its location and its users, if this is to be shown:
the location, and who uses the results, if anyone does. -/
def remark (ansi : Bool) (f : Flags) (root op : Operation) : String :=
  let users := (Uses.ofOperation root (.ofOperation root)).users op
  (if f.debugInfo then " loc(" ++ op.location.text ++ ")" else "") ++
    if f.valueUsers ∧ users ≠ [] then
      paint (f.useColors && ansi) .brightBlack (" // users: " ++ ", ".intercalate users)
    else ""

section

variable (ansi : Bool) (f : Flags) (root : Operation)

lemma usersComment_eq (op : Operation) :
    let users := (Uses.ofOperation root (.ofOperation root)).users op
    (Session.ofOperation ansi f root).usersComment op =
      if f.valueUsers ∧ users ≠ [] then
        paint (f.useColors && ansi) .brightBlack (" // users: " ++ ", ".intercalate users)
      else "" := by
  intro users
  by_cases hf : f.valueUsers = true
  · have huses : (Session.ofOperation ansi f root).uses =
        some (.ofOperation root (.ofOperation root)) := if_pos hf
    rw [Session.usersComment, huses]
    by_cases hnone : users = []
    · rw [if_neg fun h => h.2 hnone]
      exact if_pos (List.isEmpty_iff.mpr hnone)
    · rw [if_pos ⟨hf, hnone⟩]
      exact if_neg fun h => hnone (List.isEmpty_iff.mp h)
  · have huses : (Session.ofOperation ansi f root).uses = none := if_neg hf
    rw [Session.usersComment, huses, if_neg fun h => hf h.1]

lemma tail_eq_remark (op : Operation) : (Session.ofOperation ansi f root).tail op =
    description f op ++ remark ansi f root op := by
  rw [tail_eq_description, String.append_assoc, usersComment_eq]
  rfl

end

/-- **Locations and users are added behind everything else.** With them or without them a program
is printed on the same lines, those of its layout, and they stand only at the end of the last line
of each operation that is printed. -/
theorem lines_eq_annotated (ansi : Bool) (f : Flags) (root : Operation) :
    let bare := lines ansi { f with debugInfo := false, valueUsers := false } root
    let layout := slots f.skipRegions 0 root
    (bare.map fun l => (l.level, l.role)) = (layout.map fun p => (p.1, p.2.role)) ∧
      (∀ o, o ∈ endings layout ↔ o ∈ printed f root) ∧
      lines ansi f root = List.zipWith (fun l p =>
        { l with text := l.text ++ p.2.ended?.elim "" (remark ansi f root) }) bare layout := by
  intro bare layout
  let g : Flags := { f with debugInfo := false, valueUsers := false }
  let s := Session.ofOperation ansi f root
  let t := Session.ofOperation ansi g root
  have hbare : bare = layout.map t.line := lines_eq_slots t 0 root
  have hfront (p : Slot) : p.front s = p.front t := by cases p <;> rfl
  have hback (p : Slot) : p.back s = p.back t ++ p.ended?.elim "" (remark ansi f root) := by
    unfold Slot.back
    cases p.ended? with
    | none => rfl
    | some o =>
      have hnone : remark ansi g root o = "" := rfl
      have helide : f.elideAbove = g.elideAbove := rfl
      simp only [Option.elim_some, s, t, tail_eq_remark, hnone, description_congr helide,
        String.append_empty]
  refine ⟨by rw [hbare, List.map_map]; rfl, fun o => mem_endings_iff, ?_⟩
  calc lines ansi f root
      = layout.map s.line := lines_eq_slots s 0 root
    _ = layout.map fun p => { t.line p with
          text := (t.line p).text ++ p.2.ended?.elim "" (remark ansi f root) } := by
        refine List.map_congr_left fun p _ => ?_
        rw [Session.line, hfront, hback, ← String.append_assoc]
        rfl
    _ = _ := by rw [hbare, List.zipWith_map_left, List.zipWith_self]

end Print

end OpTree
