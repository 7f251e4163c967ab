import OpTree.Proofs.Splitting
import Mathlib.Data.List.Infix

/-!
The pieces of a text, said by the places at which it is cut: the separators that have a balanced
text in front of them. The split of a balanced text gives these pieces, and a text that is not
balanced cannot be split.
-/

namespace OpTree.Pipeline

/-- The pieces of a text between its separators at the top, where a balanced text stands in front
of them. -/
def pieces (isSeparator : Char → Bool) (s : List Char) : List (List Char) :=
  ((s.zip s.inits).splitOnP fun m => isSeparator m.1 && isBalanced m.2).map (List.map Prod.fst)

example : (pieces (· == ',') "a\x7bb,c\x7d,,\"d,\"".toList).map String.ofList =
    ["a\x7bb,c\x7d", "", "\"d,\""] := by
  decide +kernel

/-- The pieces of a text that stands behind another one. -/
def piecesBehind (isSeparator : Char → Bool) (front s : List Char) : List (List Char) :=
  ((s.zip (s.inits.map (front ++ ·))).splitOnP fun m => isSeparator m.1 && isBalanced m.2).map
    (List.map Prod.fst)

variable {isSeparator : Char → Bool}

lemma pieces_eq (s : List Char) : pieces isSeparator s = piecesBehind isSeparator [] s := by
  simp [pieces, piecesBehind]

@[simp] lemma piecesBehind_nil (front : List Char) : piecesBehind isSeparator front [] = [[]] := by
  simp [piecesBehind]

lemma piecesBehind_cons (front : List Char) (c : Char) (s : List Char) :
    piecesBehind isSeparator front (c :: s) =
      if isSeparator c && isBalanced front then [] :: piecesBehind isSeparator (front ++ [c]) s
      else consFirst c (piecesBehind isSeparator (front ++ [c]) s) := by
  have hzip : (c :: s).zip ((c :: s).inits.map (front ++ ·)) =
      (c, front) :: s.zip (s.inits.map (front ++ [c] ++ ·)) := by
    simp [Function.comp_def]
  rw [piecesBehind, hzip, List.splitOnP_cons_eq_if_modifyHead]
  split
  · rw [List.map_cons]
    rfl
  · rw [piecesBehind]
    cases hsplit : (s.zip (s.inits.map (front ++ [c] ++ ·))).splitOnP
        (fun m => isSeparator m.1 && isBalanced m.2) with
    | nil => exact absurd hsplit (List.splitOnP_ne_nil _ _)
    | cons q qs => rfl

namespace Nesting

lemma scan?_append (n : Nesting) (s t : List Char) :
    n.scan? (s ++ t) = (n.scan? s).bind (scan? · t) := by
  induction s generalizing n with
  | nil => rfl
  | cons c s ih =>
    rw [List.cons_append, scan?, scan?, Option.bind_assoc]
    exact Option.bind_congr fun m _ => ih m

lemma scan?_concat {n m : Nesting} {s : List Char} (h : n.scan? s = some m) (c : Char) :
    n.scan? (s ++ [c]) = m.step? c := by
  rw [scan?_append, h, Option.bind_some, scan?]
  exact Option.bind_fun_some _

end Nesting

lemma isBalanced_iff {s : List Char} : isBalanced s = true ↔ Nesting.top.scan? s = some .top :=
  beq_iff_eq

section Split

variable (hsep : ∀ c, isSeparator c = true → isBracket c = false)

include hsep

lemma splitWithin_cases {front s : List Char} {n : Nesting}
    (hfront : Nesting.top.scan? front = some n) :
    (n.scan? s = some .top ∧ splitWithin isSeparator n s = .ok (piecesBehind isSeparator front s)) ∨
      n.scan? s ≠ some .top ∧ ∃ e, splitWithin isSeparator n s = .error e := by
  induction s generalizing front n with
  | nil =>
    by_cases hn : n = .top
    · exact .inl ⟨congrArg some hn, by rw [splitWithin, if_pos hn, piecesBehind_nil]⟩
    · exact .inr ⟨fun h => hn (Option.some.inj h), .unclosed, by rw [splitWithin, if_neg hn]⟩
  | cons c s ih =>
    have hnext := Nesting.scan?_concat hfront c
    have hcut : (isSeparator c && isBalanced front) = true ↔ n = .top ∧ isSeparator c = true := by
      rw [Bool.and_eq_true, isBalanced_iff, hfront, Option.some.injEq, and_comm]
    rw [piecesBehind_cons, splitWithin, Nesting.scan?]
    by_cases hc : n = .top ∧ isSeparator c = true
    · rw [if_pos hc, if_pos (hcut.mpr hc)]
      -- a separator does not nest, so the scan goes on at the top
      have hstep : n.step? c = some n := Nesting.step?_of_not_isBracket (hsep c hc.2)
      rw [hstep] at hnext ⊢
      rw [Option.bind_some]
      rcases ih hnext with ⟨hscan, hsplit⟩ | ⟨hscan, e, hsplit⟩
      · exact .inl ⟨hscan, by rw [hsplit]; rfl⟩
      · exact .inr ⟨hscan, e, by rw [hsplit]; rfl⟩
    · rw [if_neg hc, if_neg (mt hcut.mp hc)]
      cases hstep : n.step? c with
      | none => exact .inr ⟨by simp, .unopened, rfl⟩
      | some m =>
        rw [hstep] at hnext
        rw [Option.bind_some]
        rcases ih hnext with ⟨hscan, hsplit⟩ | ⟨hscan, e, hsplit⟩
        · exact .inl ⟨hscan, by simp only [hsplit]; rfl⟩
        · exact .inr ⟨hscan, e, by simp only [hsplit]; rfl⟩

/-- **A text can be split if it is balanced**, and the split gives its pieces. -/
theorem splitTop_eq_ok_iff {s : List Char} {ps : List (List Char)} :
    splitTop isSeparator s = .ok ps ↔ isBalanced s = true ∧ ps = pieces isSeparator s := by
  have hnil : Nesting.top.scan? [] = some .top := rfl
  rw [isBalanced_iff, splitTop, pieces_eq]
  rcases splitWithin_cases hsep (s := s) hnil with ⟨hscan, hsplit⟩ | ⟨hscan, e, hsplit⟩
  · rw [hsplit, Except.ok.injEq]
    exact ⟨fun h => ⟨hscan, h.symm⟩, fun h => h.2.symm⟩
  · rw [hsplit]
    exact iff_of_false (by simp) fun h => hscan h.1

end Split

/-! ### A separator at the top -/

lemma consFirst_append (c : Char) {ps : List (List Char)} (h : ps ≠ []) (qs : List (List Char)) :
    consFirst c (ps ++ qs) = consFirst c ps ++ qs := by
  cases ps with
  | nil => exact absurd rfl h
  | cons p ps => rfl

lemma piecesBehind_congr {front front' : List Char}
    (h : Nesting.top.scan? front = Nesting.top.scan? front') (s : List Char) :
    piecesBehind isSeparator front s = piecesBehind isSeparator front' s := by
  induction s generalizing front front' with
  | nil => rw [piecesBehind_nil, piecesBehind_nil]
  | cons c s ih =>
    have hbalanced : isBalanced front = isBalanced front' := by
      rw [isBalanced, isBalanced, h]
    have hnext : Nesting.top.scan? (front ++ [c]) = Nesting.top.scan? (front' ++ [c]) := by
      rw [Nesting.scan?_append, Nesting.scan?_append, h]
    rw [piecesBehind_cons, piecesBehind_cons, hbalanced, ih hnext]

lemma piecesBehind_append_cons {front a : List Char} (ha : isBalanced (front ++ a) = true)
    {c : Char} (hc : isSeparator c = true) (b : List Char) :
    piecesBehind isSeparator front (a ++ c :: b) =
      piecesBehind isSeparator front a ++ piecesBehind isSeparator (front ++ a ++ [c]) b := by
  induction a generalizing front with
  | nil =>
    rw [List.append_nil] at ha
    rw [List.nil_append, piecesBehind_cons, hc, ha, Bool.and_true, if_pos rfl, piecesBehind_nil,
      List.append_nil, List.singleton_append]
  | cons d a ih =>
    have hfront : front ++ d :: a = front ++ [d] ++ a := by
      rw [List.append_assoc, List.singleton_append]
    rw [hfront] at ha ⊢
    rw [List.cons_append, piecesBehind_cons, piecesBehind_cons, ih ha]
    split
    · rfl
    · exact consFirst_append d (by simp [piecesBehind, List.splitOnP_ne_nil]) _

section Append

variable {a : List Char} (ha : isBalanced a = true) {c : Char} (hbracket : isBracket c = false)

include ha hbracket

lemma scan?_append_cons (b : List Char) :
    Nesting.top.scan? (a ++ c :: b) = Nesting.top.scan? b := by
  rw [Nesting.scan?_append, isBalanced_iff.mp ha, Option.bind_some, Nesting.scan?,
    Nesting.step?_of_not_isBracket hbracket, Option.bind_some]

lemma isBalanced_append_cons (b : List Char) : isBalanced (a ++ c :: b) = isBalanced b := by
  rw [isBalanced, scan?_append_cons ha hbracket, isBalanced]

/-- **A separator behind a balanced text divides the pieces.** -/
theorem pieces_append_cons (hc : isSeparator c = true) (b : List Char) :
    pieces isSeparator (a ++ c :: b) = pieces isSeparator a ++ pieces isSeparator b := by
  have hfront : isBalanced ([] ++ a) = true := ha
  rw [pieces_eq, pieces_eq, pieces_eq, piecesBehind_append_cons hfront hc]
  exact congrArg _ (piecesBehind_congr (scan?_append_cons ha hbracket []) b)

end Append

end OpTree.Pipeline
