import OpTree.Pipeline.Nesting
import OpTree.Text.Blank
import Mathlib.Data.List.Basic

/-!
Splitting at the top, seen piece by piece. A stretch of text that meets no separator at the top
carries the scan from one nesting to another and stays in one piece; the split of a text is the
split behind the stretch with the stretch put in front of the first piece.
-/

namespace OpTree.Pipeline

/-- A whole text further, without a separator at the top; `none` if one is met there, or a closing
brace where none is open. -/
def Nesting.pass? (isSeparator : Char → Bool) (n : Nesting) : List Char → Option Nesting
  | [] => some n
  | c :: r =>
    if n = .top ∧ isSeparator c then none else (n.step? c).bind (pass? isSeparator · r)

/-- The characters that nest. -/
def isBracket (c : Char) : Bool := c == '"' || c == '{' || c == '}'

/-- A stretch in front of the first piece. -/
def prepend (p : List Char) (ps : List (List Char)) : List (List Char) := p.foldr consFirst ps

@[simp] lemma prepend_cons (p q : List Char) (ps : List (List Char)) :
    prepend p (q :: ps) = (p ++ q) :: ps := by
  induction p with
  | nil => rfl
  | cons c p ih => rw [prepend, List.foldr_cons, ← prepend, ih, consFirst, List.cons_append]

namespace Nesting

variable {isSeparator : Char → Bool} {n m : Nesting}

@[simp] lemma pass?_nil : n.pass? isSeparator [] = some n := rfl

lemma pass?_append (s t : List Char) :
    n.pass? isSeparator (s ++ t) = (n.pass? isSeparator s).bind (pass? isSeparator · t) := by
  induction s generalizing n with
  | nil => rfl
  | cons c s ih =>
    rw [List.cons_append, pass?, pass?]
    by_cases h : n = .top ∧ isSeparator c
    · rw [if_pos h, if_pos h, Option.bind_none]
    · rw [if_neg h, if_neg h, Option.bind_assoc]
      exact Option.bind_congr fun _ _ => ih

lemma pass?_append_of_eq {s t : List Char} (h : n.pass? isSeparator s = some m) :
    n.pass? isSeparator (s ++ t) = m.pass? isSeparator t := by
  rw [pass?_append, h, Option.bind_some]

lemma pass?_cons {c : Char} (s : List Char) (h : n = .top → isSeparator c = false) :
    n.pass? isSeparator (c :: s) = (n.step? c).bind (pass? isSeparator · s) := by
  rw [pass?, if_neg]
  rintro ⟨hn, hc⟩
  rw [h hn] at hc
  cases hc

lemma pass?_of_steady {s : List Char} (hstep : ∀ c ∈ s, n.step? c = some n)
    (hsep : n = .top → ∀ c ∈ s, isSeparator c = false) : n.pass? isSeparator s = some n := by
  induction s with
  | nil => rfl
  | cons c s ih =>
    rw [pass?_cons s fun hn => hsep hn c (by simp), hstep c (by simp), Option.bind_some]
    exact ih (fun d hd => hstep d (by simp [hd])) fun hn d hd => hsep hn d (by simp [hd])

lemma step?_of_not_isBracket {c : Char} (h : isBracket c = false) : n.step? c = some n := by
  simp only [isBracket, Bool.or_eq_false_iff, beq_eq_false_iff_ne] at h
  obtain ⟨⟨h₁, h₂⟩, h₃⟩ := h
  simp [step?, h₁, h₂, h₃]

lemma pass?_of_not_isBracket {s : List Char} (hs : ∀ c ∈ s, isBracket c = false)
    (hsep : n = .top → ∀ c ∈ s, isSeparator c = false) : n.pass? isSeparator s = some n :=
  pass?_of_steady (fun c hc => step?_of_not_isBracket (hs c hc)) hsep

/-- A stretch between two quotes leaves the nesting as it is, whatever else it holds. -/
lemma pass?_quoted {s : List Char} (hn : n.quoted = false) (hs : '"' ∉ s)
    (hsep : isSeparator '"' = false) : n.pass? isSeparator ('"' :: (s ++ ['"'])) = some n := by
  have hopen : n.step? '"' = some { n with quoted := true } := by simp [step?, hn]
  have hclose : ({ n with quoted := true } : Nesting).step? '"' = some n := by
    simp [step?, ← hn]
  have hinner : ({ n with quoted := true } : Nesting).pass? isSeparator s =
      some { n with quoted := true } := by
    refine pass?_of_steady (fun c hc => ?_) fun h => by simp [top] at h
    have hne : c ≠ '"' := fun e => hs (e ▸ hc)
    simp [step?, hne]
  rw [pass?_cons _ fun _ => hsep, hopen, Option.bind_some, pass?_append_of_eq hinner,
    pass?_cons _ fun _ => hsep, hclose, Option.bind_some, pass?_nil]

end Nesting

variable {isSeparator : Char → Bool} {n m : Nesting}

/-- The split goes on behind a stretch in which it meets no separator. -/
theorem splitWithin_append {p : List Char} (h : n.pass? isSeparator p = some m)
    (s : List Char) : splitWithin isSeparator n (p ++ s) =
      prepend p <$> splitWithin isSeparator m s := by
  induction p generalizing n with
  | nil =>
    rw [Nesting.pass?_nil, Option.some.injEq] at h
    rw [h, List.nil_append]
    cases splitWithin isSeparator m s <;> rfl
  | cons c p ih =>
    rw [Nesting.pass?] at h
    by_cases hc : n = .top ∧ isSeparator c
    · rw [if_pos hc] at h
      cases h
    · rw [if_neg hc] at h
      obtain ⟨k, hk, h⟩ := Option.bind_eq_some_iff.mp h
      rw [List.cons_append, splitWithin, if_neg hc, hk]
      change consFirst c <$> splitWithin isSeparator k (p ++ s) = _
      rw [ih h]
      cases splitWithin isSeparator m s <;> rfl

lemma splitTop_single {p : List Char} (h : Nesting.top.pass? isSeparator p = some .top) :
    splitTop isSeparator p = .ok [p] := by
  have hsplit := splitWithin_append h []
  rw [List.append_nil] at hsplit
  rw [splitTop, hsplit, splitWithin, if_pos rfl]
  simp

lemma splitTop_append_cons {p : List Char} (h : Nesting.top.pass? isSeparator p = some .top)
    {c : Char} (hc : isSeparator c = true) (s : List Char) :
    splitTop isSeparator (p ++ c :: s) = (p :: ·) <$> splitTop isSeparator s := by
  rw [splitTop, splitWithin_append h, splitWithin, if_pos ⟨rfl, hc⟩, splitTop]
  cases splitWithin isSeparator .top s <;> simp

end OpTree.Pipeline
