import OpTree.Print.Indent
import OpTree.Proofs.Layout
import OpTree.Proofs.UserLists

/-!
Printing step by step. A pen stands at a margin that moves in at each block and out behind it, and
each line goes to a sink that may refuse it. What is written this way are the lines of the text
form, and the margin is in the end where it was.
-/

namespace OpTree

open OpTree.IR

namespace Print

/-- The state of a printing: the margin, and what has become of the lines written so far. -/
structure Pen (σ : Type) where
  margin : Margin
  sink : σ

namespace Pen

variable {σ ε : Type}

def indent (p : Pen σ) : Pen σ := { p with margin := p.margin.indent }

def dedent (p : Pen σ) : Pen σ := { p with margin := p.margin.dedent }

section

variable (put : σ → String → Except ε σ)

def line (p : Pen σ) (text : String) : Except ε (Pen σ) := do
  let sink ← put p.sink (p.margin.line text)
  return { p with sink := sink }

/-- Writes a text as a line at the margin if a condition holds. -/
def lineIf (p : Pen σ) (c : Prop) [Decidable c] (text : String) : Except ε (Pen σ) :=
  if c then p.line put text else .ok p

variable (s : Session)

mutual

def operation (op : Operation) (p : Pen σ) : Except ε (Pen σ) :=
  if op.regions.isEmpty then p.line put (s.head op ++ s.tail op)
  else if s.flags.skipRegions then
    p.line put (s.head op ++ " (" ++
      Ty.commaList (List.replicate op.regions.length "\x7b...\x7d") ++ ")" ++ s.tail op)
  else do
    let p ← p.line put (s.head op ++ " (\x7b")
    let p ← regions 0 op.regions p
    p.line put ("\x7d)" ++ s.tail op)
termination_by sizeOf op
decreasing_by cases op; simp; omega

/-- Prints regions, with a separator in front of each but the first. -/
def regions (i : ℕ) : List Region → Pen σ → Except ε (Pen σ)
  | [], p => .ok p
  | r :: rs, p => do
    let p ← p.lineIf put (0 < i) "\x7d, \x7b"
    let p ← blocks 0 r.blocks p
    regions (i + 1) rs p
termination_by rs => sizeOf rs
decreasing_by all_goals (cases r; simp <;> omega)

/-- Prints blocks, each with its label if it has one and with its operations further in. -/
def blocks (j : ℕ) : List Block → Pen σ → Except ε (Pen σ)
  | [], p => .ok p
  | b :: bs, p => do
    let p ← p.lineIf put (0 < j ∨ ¬ b.arguments.isEmpty) (s.labelText j b)
    let p ← operations b.operations p.indent
    blocks (j + 1) bs p.dedent
termination_by bs => sizeOf bs
decreasing_by all_goals (cases b; simp <;> omega)

def operations : List Operation → Pen σ → Except ε (Pen σ)
  | [], p => .ok p
  | op :: ops, p => do
    let p ← operation op p
    operations ops p
termination_by ops => sizeOf ops

end

def writes (p : Pen σ) (ls : List Line) : Except ε (Pen σ) := do
  let sink ← ls.foldlM (fun k l => put k (l.render p.margin.unit)) p.sink
  return { p with sink := sink }

end

variable {put : σ → String → Except ε σ}

/-! ### Writing lines -/

lemma line_eq (p : Pen σ) (role : Line.Role) (text : String) :
    p.line put text = p.writes put [⟨p.margin.level, role, text⟩] := by
  simp only [writes, List.foldlM_cons, List.foldlM_nil, bind_pure]
  rfl

lemma lineIf_eq (p : Pen σ) (c : Prop) [Decidable c] (role : Line.Role) (text : String) :
    p.lineIf put c text = p.writes put (if c then [⟨p.margin.level, role, text⟩] else []) := by
  rw [lineIf]
  split
  · exact p.line_eq role text
  · rfl

lemma margin_of_writes {p q : Pen σ} {ls : List Line} (h : p.writes put ls = .ok q) :
    q.margin = p.margin := by
  rw [writes] at h
  cases hsink : ls.foldlM (fun k l => put k (l.render p.margin.unit)) p.sink with
  | error e => rw [hsink] at h; cases h
  | ok sink => rw [hsink] at h; cases h; rfl

lemma writes_append (p : Pen σ) (ls ls' : List Line) :
    p.writes put (ls ++ ls') = p.writes put ls >>= fun q => q.writes put ls' := by
  simp only [writes, List.foldlM_append, bind_assoc, pure_bind]

lemma writes_bind {p : Pen σ} {ls ls' : List Line} {f : Pen σ → Except ε (Pen σ)}
    (h : ∀ q, q.margin = p.margin → f q = q.writes put ls') :
    p.writes put ls >>= f = p.writes put (ls ++ ls') := by
  rw [writes_append]
  cases hp : p.writes put ls with
  | error e => rfl
  | ok q => exact h q (margin_of_writes hp)

/-- Lines do not depend on where the margin is: what goes on further out can as well do so from
where it stood before. -/
lemma writes_indent_bind (p : Pen σ) (ls : List Line) (f : Pen σ → Except ε (Pen σ)) :
    (p.indent.writes put ls >>= fun q => f q.dedent) = p.writes put ls >>= f := by
  simp only [writes, bind_assoc, pure_bind]
  rfl

/-! ### Loops -/

section

variable {s : Session}

lemma operations_eq {ops : List Operation}
    (h : ∀ c ∈ ops, ∀ p : Pen σ,
      operation put s c p = p.writes put (s.lines p.margin.level c)) (p : Pen σ) :
    operations put s ops p = p.writes put (ops.flatMap (s.lines p.margin.level)) := by
  induction ops generalizing p with
  | nil => rw [operations]; rfl
  | cons c ops ih =>
    rw [operations, h c (.head _), List.flatMap_cons]
    exact writes_bind fun q hq => by rw [ih (fun d hd => h d (.tail _ hd)), hq]

lemma blocks_eq {bs : List Block}
    (h : ∀ b ∈ bs, ∀ c ∈ b.operations, ∀ p : Pen σ,
      operation put s c p = p.writes put (s.lines p.margin.level c)) (j : ℕ) (p : Pen σ) :
    blocks put s j bs p = p.writes put (s.blockLines p.margin.level j
      (bs.map fun b => (b, b.operations.flatMap (s.lines (p.margin.level + 1))))) := by
  induction bs generalizing j p with
  | nil => rw [blocks]; rfl
  | cons b bs ih =>
    have hlabel : (if 0 < j ∨ ¬ b.arguments.isEmpty then
        [(⟨p.margin.level, .label, s.labelText j b⟩ : Line)] else []) =
        s.labelLines p.margin.level j b := by
      rw [Session.labelLines, ← ite_not]
      simp only [not_or, Nat.not_lt, Nat.le_zero, not_not]
    rw [blocks, p.lineIf_eq _ .label, hlabel, List.map_cons, Session.blockLines, List.append_assoc]
    refine writes_bind fun q hq => ?_
    rw [operations_eq (h b (.head _)), writes_indent_bind, ← hq]
    exact writes_bind fun q' hq' => by rw [ih (fun c hc => h c (.tail _ hc)), hq']

lemma regions_eq {rs : List Region}
    (h : ∀ r ∈ rs, ∀ b ∈ r.blocks, ∀ c ∈ b.operations, ∀ p : Pen σ,
      operation put s c p = p.writes put (s.lines p.margin.level c)) (i : ℕ) (p : Pen σ) :
    regions put s i rs p = p.writes put ((rs.zipIdx i).flatMap fun q =>
      (if 0 < q.2 then [⟨p.margin.level, .separator, "\x7d, \x7b"⟩] else []) ++
        s.regionLines p.margin.level q.1) := by
  induction rs generalizing i p with
  | nil => rw [regions]; rfl
  | cons r rs ih =>
    rw [regions, p.lineIf_eq _ .separator, List.zipIdx_cons, List.flatMap_cons, List.append_assoc]
    refine writes_bind fun q hq => ?_
    rw [blocks_eq (h r (.head _)), hq]
    exact writes_bind fun q' hq' => by rw [ih (fun c hc => h c (.tail _ hc)), hq', hq]

end

lemma intercalate_map_eq {α β : Type} (sep : List β) (g : α → List β) (l : List α) :
    sep.intercalate (l.map g) =
      l.zipIdx.flatMap fun q => (if 0 < q.2 then sep else []) ++ g q.1 := by
  have hrest (k : ℕ) (l : List α) : (l.zipIdx (k + 1)).flatMap
      (fun q => (if 0 < q.2 then sep else []) ++ g q.1) = l.flatMap fun a => sep ++ g a := by
    induction l generalizing k with
    | nil => rfl
    | cons a l ih =>
      rw [List.zipIdx_cons, List.flatMap_cons, List.flatMap_cons, ih, if_pos (Nat.succ_pos k)]
  cases l with
  | nil => rfl
  | cons a l =>
    rw [List.map_cons, Text.intercalate_cons, List.flatMap_map, List.zipIdx_cons,
      List.flatMap_cons, hrest, if_neg (Nat.lt_irrefl 0), List.nil_append]

/-- **What is printed step by step are the lines of the text form**, and the margin is in the end
where it was. -/
theorem operation_eq (s : Session) (op : Operation) (p : Pen σ) :
    operation put s op p = p.writes put (s.lines p.margin.level op) := by
  induction op using Operation.nested_induction generalizing p with
  | nest op ih =>
    rw [operation, Session.lines]
    split
    · exact p.line_eq .whole _
    · split
      · rw [List.map_const']
        exact p.line_eq .whole _
      · rw [p.line_eq .opening]
        refine writes_bind fun q hq => ?_
        rw [regions_eq ih, hq]
        change _ = q.writes put ([⟨p.margin.level, .separator, "\x7d, \x7b"⟩].intercalate
          (op.regions.map (s.regionLines p.margin.level)) ++ _)
        rw [intercalate_map_eq]
        exact writes_bind fun q' hq' => by rw [q'.line_eq .closing, hq', hq]

end Pen

/-! ### Regions that are left out -/

/-- **To leave out regions hides what is in them and nothing else.** In a program that is printed
with its regions or without them, from any margin on, an operation without regions is printed alike.
One with regions is printed in one line instead of many, which begins like the first of these up to
the regions, ends like the last behind them, and has dots for each region. The users that it names
are those in the whole program, also where this is not shown. -/
theorem skipRegions_hides_bodies {σ ε : Type} (put : σ → String → Except ε σ) (ansi : Bool)
    (f : Flags) (root op : Operation) (p : Pen σ) :
    let shown := Session.ofOperation ansi { f with skipRegions := false } root
    let hidden := Session.ofOperation ansi { f with skipRegions := true } root
    let level := p.margin.level
    let head := hidden.head op
    let tail := hidden.tail op
    let dots := ", ".intercalate (List.replicate op.regions.length "\x7b...\x7d")
    let users := (Uses.ofOperation root (.ofOperation root)).users op
    (∀ s ∈ [shown, hidden], p.operation put s op = p.writes put (s.lines level op) ∧
      ∀ q, p.operation put s op = .ok q → q.margin = p.margin) ∧
    (op.regions = [] → shown.lines level op = hidden.lines level op) ∧
    (op.regions ≠ [] →
      (∃ bodies, shown.lines level op = ⟨level, .opening, head ++ " (\x7b"⟩ ::
        (bodies ++ [⟨level, .closing, "\x7d)" ++ tail⟩])) ∧
      hidden.lines level op = [⟨level, .whole, head ++ " (" ++ dots ++ ")" ++ tail⟩]) ∧
    (∃ front, tail = front ++
      if f.valueUsers = true ∧ ∃ o ∈ root.walk, o.UsesResultOf op then
        paint (f.useColors && ansi) .brightBlack (" // users: " ++ Ty.commaList users)
      else "") ∧
    ∀ o ∈ root.walk, o.UsesResultOf op → identity (.ofOperation root) o ∈ users := by
  intro shown hidden level head tail dots users
  have htail : shown.tail op = tail := by
    have helide : shown.flags.elideAbove = hidden.flags.elideAbove := rfl
    rw [tail_eq_description, description_congr helide]
    rfl
  refine ⟨fun s _ => ⟨p.operation_eq s op, fun q hq => ?_⟩, fun hop => ?_, fun hop => ⟨?_, ?_⟩,
    ⟨hidden.withoutUsers.tail op, ?_⟩, fun o ho huses => ?_⟩
  · exact Pen.margin_of_writes ((p.operation_eq s op).symm.trans hq)
  · have hregions : op.regions.isEmpty = true := by rw [hop]; rfl
    rw [Session.lines, Session.lines, if_pos hregions, if_pos hregions, htail]
    rfl
  · rw [Session.lines_of_regions rfl level hop, htail]
    exact ⟨_, rfl⟩
  · have hskip : hidden.flags.skipRegions = true := rfl
    rw [Session.lines, if_neg (by simpa using hop), if_pos hskip, List.map_const']
    rfl
  · have hcomment : hidden.usersComment op = _ := Session.usersComment_ofOperation ansi _ root op
    exact (Session.tail_eq hidden op).trans (congrArg _ hcomment)
  · exact (mem_users root _).mpr ⟨o, ho, rfl, huses⟩

end Print

end OpTree
