import OpTree.Json.Token

/-!
The list of tokens of a JSON text. Each token takes at least one character, which is why lexing
ends; it ends early behind a malformed value.
-/

namespace OpTree.Json

theorem skipString_length {s r : List Char} (h : skipString s = .ok r) :
    r.length ≤ s.length := by
  fun_induction skipString s <;> simp_all <;> omega

theorem StringScan.length_spoil (f : Fault) (s : List Char) :
    (StringScan.spoil f s).rest.length ≤ s.length := by
  unfold StringScan.spoil
  split
  · exact skipString_length ‹_›
  · simp

theorem scanString_length (s : List Char) : (scanString s).rest.length ≤ s.length := by
  fun_induction scanString s with
  | case4 | case7 | case11 =>
    refine Nat.le_trans (StringScan.length_spoil _ _) ?_
    simp only [List.length_cons]
    omega
  | _ => simp_all [StringScan.cons, StringScan.stop, StringScan.close] <;> omega

theorem spanDigits_length (s : List Char) : (spanDigits s).2.length ≤ s.length :=
  (List.dropWhile_sublist _).length_le

theorem scanExponent_length (n : Numeral) (s : List Char) :
    (scanExponent n s).2.length ≤ s.length := by
  unfold scanExponent
  grind [spanDigits_length]

theorem scanNumber_length (negative : Bool) (s : List Char) :
    (scanNumber negative s).2.length ≤ (spanDigits s).2.length := by
  unfold scanNumber
  grind [spanDigits_length, scanExponent_length]

theorem scanWord_length (l : Leaf) (w s : List Char) : (scanWord l w s).2.length ≤ s.length := by
  fun_induction scanWord l w s <;> grind

theorem nextToken_length (c : Char) (r : List Char) : (nextToken c r).2.length ≤ r.length := by
  unfold nextToken
  split <;> try exact Nat.le_refl _
  · exact scanString_length r
  · exact scanWord_length _ _ r
  · exact scanWord_length _ _ r
  · exact scanWord_length _ _ r
  · exact Nat.le_trans (scanNumber_length _ r) (spanDigits_length r)
  · split
    · refine Nat.le_trans (scanNumber_length _ _) ?_
      simpa [spanDigits, ‹Char.isDigit _ = true›] using spanDigits_length r
    · simp

def tokens : List Char → List Token
  | [] => []
  | c :: r => if isSpace c then tokens r else (nextToken c r).1 :: tokens (nextToken c r).2
termination_by s => s.length
decreasing_by
  · simp
  · exact Nat.lt_succ_of_le (nextToken_length c r)

end OpTree.Json
