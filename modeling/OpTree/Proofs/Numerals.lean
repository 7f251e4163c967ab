import OpTree.Json.Token
import OpTree.Proofs.Rounding
import Mathlib.Data.List.DropRight
import Mathlib.Tactic.IntervalCases

/-!
Numerals as they are written. A number is written as a numeral, the scan of the text of a numeral
gives the numeral, and the numeral stands for the number: every integer of 64 bits and every
finite floating point number reads back, to the bit.
-/

namespace OpTree

open OpTree.Number

namespace Text

/-! ### Digits -/

lemma digitsValue_eq (ds : List Char) : digitsValue ds = Nat.ofDigitChars 10 ds 0 :=
  Nat.ofDigitChars_eq_foldl.symm

@[simp] lemma digitsValue_toDigits (n : ℕ) : digitsValue (Nat.toDigits 10 n) = n := by
  rw [digitsValue_eq, Nat.ofDigitChars_ten_toDigits]

lemma digitsValue_append (s t : List Char) :
    digitsValue (s ++ t) = digitsValue s * 10 ^ t.length + digitsValue t := by
  rw [digitsValue_eq, digitsValue_eq, digitsValue_eq, Nat.ofDigitChars_append,
    Nat.ofDigitChars_eq_ofDigitChars_zero, Nat.mul_comm]

lemma digitsValue_zeros_append (n : ℕ) (ds : List Char) :
    digitsValue (List.replicate n '0' ++ ds) = digitsValue ds := by
  rw [digitsValue_append, digitsValue_eq (List.replicate n '0'), Nat.ofDigitChars_replicate_zero]
  simp

lemma digitsValue_append_zeros (ds : List Char) (n : ℕ) :
    digitsValue (ds ++ List.replicate n '0') = digitsValue ds * 10 ^ n := by
  rw [digitsValue_append, digitsValue_eq (List.replicate n '0'), Nat.ofDigitChars_replicate_zero]
  simp

lemma isDigit_of_mem_toDigits {n : ℕ} : ∀ c ∈ Nat.toDigits 10 n, c.isDigit = true := fun _ hc =>
  Nat.isDigit_of_mem_toDigits (by norm_num) (by norm_num) hc

lemma head?_toDigits_ne {n : ℕ} (hn : 0 < n) : (Nat.toDigits 10 n).head? ≠ some '0' := by
  induction n using Nat.strong_induction_on with
  | _ n ih =>
    rw [Nat.toDigits_eq_if (by norm_num)]
    split
    · rename_i hlt
      interval_cases n <;> decide
    · rename_i hge
      have hdiv : 0 < n / 10 := Nat.div_pos (by omega) (by norm_num)
      rw [List.head?_append_of_ne_nil _ Nat.toDigits_ne_nil]
      exact ih _ (Nat.div_lt_self hn (by norm_num)) hdiv

lemma toList_toString_int (n : ℤ) :
    (toString n).toList = (if n < 0 then ['-'] else []) ++ Nat.toDigits 10 n.natAbs := by
  rw [Int.toString_eq_repr, Int.repr_eq_if]
  by_cases h : 0 ≤ n
  · have hnat : n.toNat = n.natAbs := by omega
    rw [if_pos h, if_neg (by omega), hnat, Nat.repr_eq_ofList_toDigits, String.toList_ofList,
      List.nil_append]
  · have hnat : (-n).toNat = n.natAbs := by omega
    rw [if_neg h, if_pos (by omega), String.toList_append, hnat, Nat.repr_eq_ofList_toDigits,
      String.toList_ofList]
    simp

end Text

namespace Json

open OpTree.Text

namespace Numeral

/-- The digits are digits, there is one in front of the point, and no zero is put in front. -/
structure WellFormed (n : Numeral) : Prop where
  whole_ne : n.whole ≠ []
  whole_digits : ∀ c ∈ n.whole, c.isDigit = true
  no_zero : n.whole.head? = some '0' → n.whole = ['0']
  fraction_digits : ∀ c ∈ n.fraction, c.isDigit = true

/-- The text of the part behind the point. -/
def fractionText (n : Numeral) : List Char :=
  if n.fraction = [] then [] else '.' :: n.fraction

def exponentText (plusSign : Bool) (n : Numeral) : List Char :=
  match n.exponent with
  | none => []
  | some e => 'e' :: ((if 0 ≤ e && plusSign then ['+'] else []) ++ (toString e).toList)

def body (plusSign : Bool) (n : Numeral) : List Char :=
  n.whole ++ (n.fractionText ++ n.exponentText plusSign)

def text (plusSign : Bool) (n : Numeral) : List Char :=
  if n.negative then '-' :: n.body plusSign else n.body plusSign

/-- A text that does not go on with a numeral. -/
def Ends (rest : List Char) : Prop :=
  ∀ c ∈ rest.head?, c.isDigit = false ∧ c ≠ '.' ∧ c ≠ 'e' ∧ c ≠ 'E'

end Numeral

/-! ### Scanning -/

lemma spanDigits_append {ds rest : List Char} (hds : ∀ c ∈ ds, c.isDigit = true)
    (hrest : ∀ c ∈ rest.head?, c.isDigit = false) : spanDigits (ds ++ rest) = (ds, rest) := by
  unfold spanDigits
  rw [List.takeWhile_append_of_pos hds, List.dropWhile_append_of_pos hds]
  cases rest with
  | nil => simp
  | cons c rest =>
    have hc : c.isDigit = false := hrest c (by simp)
    simp [hc]

lemma not_isDigit_of_ends {rest : List Char} (h : Numeral.Ends rest) :
    ∀ c ∈ rest.head?, c.isDigit = false := fun c hc => (h c hc).1

lemma scanExponent_of_ends (n : Numeral) {rest : List Char} (h : Numeral.Ends rest) :
    scanExponent n rest = (.number n, rest) := by
  cases rest with
  | nil => rfl
  | cons c rest =>
    obtain ⟨-, -, he, hE⟩ := h c (by simp)
    simp [scanExponent, he, hE]

lemma spanDigits_exponent (e : ℤ) {rest : List Char} (h : Numeral.Ends rest) :
    spanDigits (Nat.toDigits 10 e.natAbs ++ rest) = (Nat.toDigits 10 e.natAbs, rest) :=
  spanDigits_append isDigit_of_mem_toDigits (not_isDigit_of_ends h)

lemma scanExponent_text (n : Numeral) (plusSign : Bool) (e : ℤ) {rest : List Char}
    (h : Numeral.Ends rest) :
    scanExponent n ('e' :: ((if 0 ≤ e && plusSign then ['+'] else []) ++ (toString e).toList ++
      rest)) = (.number { n with exponent := some e }, rest) := by
  have hspan := spanDigits_exponent e h
  have hne : Nat.toDigits 10 e.natAbs ≠ [] := Nat.toDigits_ne_nil
  have hvalue := digitsValue_toDigits e.natAbs
  have hdigits := isDigit_of_mem_toDigits (n := e.natAbs)
  rw [toList_toString_int]
  generalize Nat.toDigits 10 e.natAbs = ds at *
  by_cases hneg : e < 0
  · have hnot : decide (0 ≤ e) = false := decide_eq_false (by omega)
    have habs : -(e.natAbs : ℤ) = e := by omega
    rw [if_pos hneg, hnot, Bool.false_and, if_neg Bool.false_ne_true, List.nil_append,
      List.cons_append, List.nil_append, List.cons_append]
    simp only [scanExponent, beq_self_eq_true, Bool.true_or, if_true, hspan, if_neg hne, hvalue,
      habs]
  · have hpos : decide (0 ≤ e) = true := decide_eq_true (by omega)
    have habs : (e.natAbs : ℤ) = e := by omega
    rw [if_neg hneg, hpos, Bool.true_and, List.nil_append]
    cases plusSign
    · -- without a sign the first digit is looked at
      obtain ⟨d, r, rfl⟩ := List.exists_cons_of_ne_nil hne
      have hd : d.isDigit = true := hdigits d (by simp)
      have hminus : d ≠ '-' := by
        rintro rfl
        exact absurd hd (by decide)
      have hplus : d ≠ '+' := by
        rintro rfl
        exact absurd hd (by decide)
      rw [if_neg Bool.false_ne_true, List.nil_append, scanExponent]
      simp only [beq_self_eq_true, Bool.true_or, if_true, hspan, if_neg hne, hvalue, habs,
        Bool.false_eq_true, if_false]
      · exact fun r' heq => hminus (List.cons.inj heq).1
      · exact fun r' heq => hplus (List.cons.inj heq).1
    · rw [if_pos rfl, List.cons_append, List.nil_append, List.cons_append]
      simp only [scanExponent, beq_self_eq_true, Bool.true_or, if_true, hspan, if_neg hne, hvalue,
        habs, Bool.false_eq_true, if_false]

lemma scanExponent_exponentText (n : Numeral) (plusSign : Bool) {rest : List Char}
    (h : Numeral.Ends rest) :
    scanExponent { n with exponent := none } (n.exponentText plusSign ++ rest) =
      (.number n, rest) := by
  unfold Numeral.exponentText
  cases he : n.exponent with
  | none =>
    have hn : { n with exponent := none } = n := by rw [← he]
    rw [hn]
    exact scanExponent_of_ends n h
  | some e =>
    have hn : { n with exponent := some e } = n := by rw [← he]
    simp only [List.cons_append]
    rw [scanExponent_text _ plusSign e h, hn]

lemma not_isDigit_head?_tail (n : Numeral) (plusSign : Bool) {rest : List Char}
    (h : Numeral.Ends rest) :
    ∀ c ∈ (n.fractionText ++ n.exponentText plusSign ++ rest).head?, c.isDigit = false := by
  intro c hc
  unfold Numeral.fractionText Numeral.exponentText at hc
  by_cases hf : n.fraction = []
  · cases he : n.exponent with
    | none =>
      rw [if_pos hf, he, List.nil_append, List.nil_append] at hc
      exact (h c hc).1
    | some e =>
      rw [if_pos hf, he] at hc
      obtain rfl : 'e' = c := by simpa using hc
      decide
  · rw [if_neg hf] at hc
    obtain rfl : '.' = c := by simpa using hc
    decide

section

variable {negative : Bool} {s ds r : List Char} (hne : ds ≠ [])
  (hzero : ds.head? = some '0' → ds = ['0'])

include hne hzero

lemma scanNumber_of_point (hspan : spanDigits s = (ds, '.' :: r)) (hf : (spanDigits r).1 ≠ []) :
    scanNumber negative s =
      scanExponent { negative, whole := ds, fraction := (spanDigits r).1 } (spanDigits r).2 := by
  unfold scanNumber
  simp only [hspan]
  split
  · exact absurd rfl hne
  · exact absurd (hzero rfl) (by simp)
  · rw [if_neg hf]

lemma scanNumber_of_no_point (hspan : spanDigits s = (ds, r)) (hr : '.' ∉ r.head?) :
    scanNumber negative s = scanExponent { negative, whole := ds } r := by
  unfold scanNumber
  simp only [hspan]
  split
  · exact absurd rfl hne
  · exact absurd (hzero rfl) (by simp)
  · cases r with
    | nil => rfl
    | cons c r =>
      have hc : c ≠ '.' := fun e => hr (by simp [e])
      split
      · rename_i heq
        exact absurd (List.cons.inj heq).1 hc
      · rfl

end

/-- **The text of a numeral is scanned as the numeral**, whatever stands behind it. -/
theorem scanNumber_body {n : Numeral} (hn : n.WellFormed) (plusSign : Bool) {rest : List Char}
    (h : Numeral.Ends rest) :
    scanNumber n.negative (n.body plusSign ++ rest) = (.number n, rest) := by
  have hwhole : spanDigits (n.body plusSign ++ rest) =
      (n.whole, n.fractionText ++ n.exponentText plusSign ++ rest) := by
    rw [Numeral.body, List.append_assoc]
    exact spanDigits_append hn.whole_digits (not_isDigit_head?_tail n plusSign h)
  have htail := scanExponent_exponentText n plusSign h
  by_cases hf : n.fraction = []
  · have hfraction : n.fractionText = [] := if_pos hf
    rw [hfraction, List.nil_append] at hwhole
    have hpoint : '.' ∉ (n.exponentText plusSign ++ rest).head? := by
      unfold Numeral.exponentText
      cases n.exponent with
      | none => exact fun hc => (h '.' hc).2.1 rfl
      | some e => simp
    rw [scanNumber_of_no_point hn.whole_ne hn.no_zero hwhole hpoint, ← htail, ← hf]
  · have hfraction : n.fractionText = '.' :: n.fraction := if_neg hf
    have hspan : spanDigits (n.fraction ++ (n.exponentText plusSign ++ rest)) =
        (n.fraction, n.exponentText plusSign ++ rest) := by
      refine spanDigits_append hn.fraction_digits fun c hc => ?_
      exact not_isDigit_head?_tail { n with fraction := [] } plusSign h c hc
    rw [hfraction, List.append_assoc, List.cons_append] at hwhole
    rw [scanNumber_of_point hn.whole_ne hn.no_zero hwhole (by rwa [hspan]), hspan]
    exact htail

/-! ### What numerals stand for -/

namespace Numeral

/-- The digits as an integer. -/
def digits (n : Numeral) : ℕ := digitsValue (n.whole ++ n.fraction)

/-- The exponent of the power of ten at which the last digit stands. -/
def place (n : Numeral) : ℤ := n.exponent.getD 0 - n.fraction.length

/-- The number that a numeral stands for, without its sign. -/
def value (n : Numeral) : ℚ := n.digits * 10 ^ n.place

/-- The number nearest to a numeral. -/
def nearest (n : Numeral) : Except Fault Binary64 :=
  n.signed (Binary64.ofDecimal n.digits n.place)

/-- A magnitude is the nearest one to a numeral with the value of a decimal that reads as the
magnitude. -/
lemma nearest_of_value {n : Numeral} {d : Decimal} {m : ℕ} (hd : 0 < d.digits)
    (hread : d.magnitude = m) (hfin : m < Binary64.infinityMagnitude)
    (h : n.value = d.value) : n.nearest = .ok (.ofMagnitude n.negative m) := by
  have hpos : 0 < n.digits := by
    refine Nat.pos_of_ne_zero fun hzero => ?_
    rw [value, hzero, Nat.cast_zero, zero_mul, Decimal.value, eq_comm, mul_eq_zero] at h
    rcases h with h | h
    · exact absurd h (by exact_mod_cast hd.ne')
    · exact absurd h (zpow_pos (by norm_num) _).ne'
  have hm : Binary64.ofDecimal n.digits n.place = m := by
    rw [← hread, Decimal.magnitude]
    exact Binary64.ofDecimal_congr hpos hd h
  rw [nearest, signed, hm, if_pos hfin]

section

variable [FloatReader]

lemma float_eq_ok {n : Numeral} {v : Number} (h : n.float = .ok v) :
    ∃ x, FloatReader.read n = .ok x ∧ v = .float x := by
  unfold float at h
  cases hread : FloatReader.read n with
  | error f => rw [hread] at h; cases h
  | ok x =>
    rw [hread] at h
    cases h
    exact ⟨x, rfl, rfl⟩

lemma isFinite_of_number {n : Numeral} {x : Binary64} (h : n.number = .ok (.float x)) :
    x.isFinite = true := by
  have hfloat (h : n.float = .ok (.float x)) : x.isFinite = true := by
    obtain ⟨y, hy, hxy⟩ := float_eq_ok h
    cases hxy
    exact FloatReader.isFinite_of_read hy
  unfold number at h
  simp only at h
  split at h
  · split at h <;> split at h <;> first | cases h | exact hfloat h
  · exact hfloat h

lemma natAbs_lt_of_number {n : Numeral} {v : ℤ} (h : n.number = .ok (.int v)) :
    v.natAbs < 0x10000000000000000 := by
  have hfloat : n.float ≠ .ok (.int v) := fun h => by
    obtain ⟨_, -, hv⟩ := float_eq_ok h
    cases hv
  unfold number signedLimit sizeLimit at h
  simp only at h
  split at h
  · split at h <;> split at h <;>
      first
      | cases h
        omega
      | exact absurd h hfloat
  · exact absurd h hfloat

/-- A numeral with a fraction or an exponent is left to the reader. -/
lemma number_of_not_whole {n : Numeral} (h : n.fraction ≠ [] ∨ n.exponent ≠ none) :
    n.number = n.float := by
  rw [number]
  exact if_neg fun hboth => h.elim (absurd hboth.1) (absurd hboth.2)

end

/-! ### Writing integers -/

/-- The numeral that is written for an integer. -/
def ofInt (n : ℤ) : Numeral where
  negative := n < 0
  whole := Nat.toDigits 10 n.natAbs

lemma text_ofInt (n : ℤ) (plusSign : Bool) : (toString n).toList = (ofInt n).text plusSign := by
  rw [toList_toString_int, text]
  by_cases h : n < 0 <;> simp [ofInt, body, fractionText, exponentText, h]

lemma wellFormed_ofInt (n : ℤ) : (ofInt n).WellFormed := by
  refine ⟨Nat.toDigits_ne_nil, isDigit_of_mem_toDigits, fun h => ?_, by simp [ofInt]⟩
  rcases Nat.eq_zero_or_pos n.natAbs with hzero | hpos
  · simp [ofInt, hzero]
  · exact absurd h (head?_toDigits_ne hpos)

/-- **The numeral of an integer of 64 bits, signed or not, stands for the integer.** -/
theorem number_ofInt [FloatReader] {n : ℤ} (hlow : -0x8000000000000000 ≤ n)
    (hhigh : n < 0x10000000000000000) : (ofInt n).number = .ok (.int n) := by
  unfold number
  rw [if_pos ⟨rfl, rfl⟩]
  simp only [ofInt, digitsValue_toDigits, signedLimit, sizeLimit]
  by_cases h : n < 0
  · have habs : -(n.natAbs : ℤ) = n := by omega
    rw [if_pos (decide_eq_true h), if_pos (by omega), habs]
  · have habs : (n.natAbs : ℤ) = n := by omega
    rw [if_neg (by simpa using h), if_pos (by omega), habs]

end Numeral

end Json

namespace Number.Layout

open OpTree.Json OpTree.Text

structure Significant (ds : List Char) : Prop where
  ne : ds ≠ []
  digits : ∀ c ∈ ds, c.isDigit = true
  head : ds.head? ≠ some '0'

/-- A decimal in positional notation, as a numeral. -/
def plainNumeral (negative : Bool) (ds : List Char) (top : ℤ) : Numeral :=
  if top < 0 then
    { negative, whole := ['0'], fraction := List.replicate ((-top).toNat - 1) '0' ++ ds }
  else
    { negative,
      whole := ds.take (top.toNat + 1) ++ List.replicate (top.toNat + 1 - ds.length) '0',
      fraction := if ds.drop (top.toNat + 1) = [] then ['0'] else ds.drop (top.toNat + 1) }

/-- A decimal in scientific notation, as a numeral. -/
def scientificNumeral (negative : Bool) (ds : List Char) (top : ℤ) : Numeral where
  negative := negative
  whole := ds.take 1
  fraction := ds.drop 1
  exponent := some top

/-- The digits of a number without the zeros at the end. -/
def significantDigits (n : ℕ) : List Char := (Nat.toDigits 10 n).rdropWhile (· == '0')

/-- The numeral that is written for a finite number. -/
def numeral (l : Layout) (x : Binary64) : Numeral :=
  if x.magnitude = 0 then { negative := x.isNegative, whole := ['0'], fraction := ['0'] }
  else
    let d := Decimal.shortest l.tie x.magnitude
    let top := ((Nat.toDigits 10 d.digits).length : ℤ) - 1 + d.exponent
    if l.plainFrom ≤ top && top ≤ l.plainTo then
      plainNumeral x.isNegative (significantDigits d.digits) top
    else scientificNumeral x.isNegative (significantDigits d.digits) top

lemma body_scientificNumeral (ds : List Char) (negative : Bool) (top : ℤ) (plusSign : Bool) :
    (scientificNumeral negative ds top).body plusSign = scientific plusSign ds top := by
  simp [Numeral.body, Numeral.fractionText, Numeral.exponentText, scientificNumeral, scientific]

lemma value_plainNumeral (ds : List Char) (negative : Bool) (top : ℤ) :
    (plainNumeral negative ds top).value = digitsValue ds * 10 ^ (top + 1 - ds.length) := by
  unfold plainNumeral
  split
  · rename_i hneg
    have hexp : (0 : ℤ) - ((-top).toNat - 1 + ds.length : ℕ) = top + 1 - ds.length := by omega
    have hdigits : digitsValue ('0' :: (List.replicate ((-top).toNat - 1) '0' ++ ds)) =
        digitsValue ds := digitsValue_zeros_append ((-top).toNat - 1 + 1) ds
    simp only [Numeral.value, Numeral.digits, Numeral.place, List.cons_append, List.nil_append,
      Option.getD_none, List.length_append, List.length_replicate, hexp, hdigits]
  · rename_i hpos
    by_cases hlen : ds.length ≤ top.toNat + 1
    · have hexp : (10 : ℚ) ^ (top + 1 - ds.length) = 10 ^ (top.toNat + 1 - ds.length) := by
        rw [← zpow_natCast]
        congr 1
        omega
      have hdigits : digitsValue (ds ++ List.replicate (top.toNat + 1 - ds.length) '0' ++ ['0']) =
          digitsValue ds * 10 ^ (top.toNat + 1 - ds.length + 1) := by
        rw [List.append_assoc, ← List.replicate_succ', digitsValue_append_zeros]
      simp only [Numeral.value, Numeral.digits, Numeral.place, List.drop_of_length_le hlen,
        List.take_of_length_le hlen, if_true, Option.getD_none, List.length_singleton, hdigits,
        hexp]
      push_cast
      rw [pow_succ, zpow_neg_one]
      ring
    · have hne : ds.drop (top.toNat + 1) ≠ [] := by
        rw [ne_eq, List.drop_eq_nil_iff]
        exact hlen
      have hzero : top.toNat + 1 - ds.length = 0 := by omega
      have hexp : (0 : ℤ) - (ds.length - (top.toNat + 1) : ℕ) = top + 1 - ds.length := by omega
      simp only [Numeral.value, Numeral.digits, Numeral.place, if_neg hne, hzero,
        List.replicate_zero, List.append_nil, List.take_append_drop, Option.getD_none,
        List.length_drop, hexp]

section

variable {ds : List Char} (hds : Significant ds) (negative : Bool) (top : ℤ)

include hds

lemma fraction_plainNumeral_ne : (plainNumeral negative ds top).fraction ≠ [] := by
  unfold plainNumeral
  split
  · simp [hds.ne]
  · split <;> simp_all

lemma body_plainNumeral (plusSign : Bool) :
    (plainNumeral negative ds top).body plusSign = plain ds top := by
  have hf := fraction_plainNumeral_ne hds negative top
  have hexp : (plainNumeral negative ds top).exponentText plusSign = [] := by
    unfold plainNumeral
    split <;> rfl
  rw [Numeral.body, Numeral.fractionText, if_neg hf, hexp, List.append_nil]
  unfold plainNumeral plain
  split
  · simp
  · simp

lemma wellFormed_plainNumeral : (plainNumeral negative ds top).WellFormed := by
  have hzeros (k : ℕ) : ∀ c ∈ List.replicate k '0', c.isDigit = true := by
    intro c hc
    rw [(List.mem_replicate.mp hc).2]
    decide
  unfold plainNumeral
  split
  · refine ⟨by simp, by simp, by simp, fun c hc => ?_⟩
    rcases List.mem_append.mp hc with hc | hc
    · exact hzeros _ c hc
    · exact hds.digits c hc
  · have hhead : (ds.take (top.toNat + 1) ++ List.replicate (top.toNat + 1 - ds.length) '0').head? =
        ds.head? := by
      obtain ⟨c, r, rfl⟩ := List.exists_cons_of_ne_nil hds.ne
      rfl
    refine ⟨?_, fun c hc => ?_, fun h => ?_, fun c hc => ?_⟩
    · intro h
      simp only at h
      rw [h, List.head?_nil, eq_comm, List.head?_eq_none_iff] at hhead
      exact hds.ne hhead
    · rcases List.mem_append.mp hc with hc | hc
      · exact hds.digits c (List.mem_of_mem_take hc)
      · exact hzeros _ c hc
    · exact absurd (hhead ▸ h) hds.head
    · simp only at hc
      split at hc
      · obtain rfl := List.mem_singleton.mp hc
        decide
      · exact hds.digits c (List.mem_of_mem_drop hc)

lemma wellFormed_scientificNumeral : (scientificNumeral negative ds top).WellFormed := by
  obtain ⟨c, r, rfl⟩ := List.exists_cons_of_ne_nil hds.ne
  have hdigits := hds.digits
  have hhead := hds.head
  simp only [List.mem_cons, List.head?_cons, ne_eq, Option.some.injEq] at hdigits hhead
  refine ⟨by simp [scientificNumeral], ?_, ?_, ?_⟩
  · simpa [scientificNumeral] using hdigits c (Or.inl rfl)
  · simp [scientificNumeral]
  · simpa [scientificNumeral] using fun d hd => hdigits d (Or.inr hd)

lemma value_scientificNumeral :
    (scientificNumeral negative ds top).value = digitsValue ds * 10 ^ (top + 1 - ds.length) := by
  have hlen : 1 ≤ ds.length := List.length_pos_of_ne_nil hds.ne
  have hexp : top - ((ds.length - 1 : ℕ) : ℤ) = top + 1 - ds.length := by omega
  simp only [Numeral.value, Numeral.digits, Numeral.place, scientificNumeral, List.take_append_drop,
    Option.getD_some, List.length_drop, hexp]

end

/-! ### Writing floating point numbers -/

lemma significantDigits_append (n : ℕ) :
    ∃ k, Nat.toDigits 10 n = significantDigits n ++ List.replicate k '0' := by
  refine ⟨((Nat.toDigits 10 n).rtakeWhile (· == '0')).length, ?_⟩
  have hzeros : (Nat.toDigits 10 n).rtakeWhile (· == '0') =
      List.replicate ((Nat.toDigits 10 n).rtakeWhile (· == '0')).length '0' := by
    refine List.eq_replicate_iff.mpr ⟨rfl, fun c hc => ?_⟩
    simpa using List.mem_rtakeWhile_imp hc
  rw [← hzeros]
  exact (List.rdropWhile_append_rtakeWhile).symm

lemma significant_significantDigits {n : ℕ} (hn : 0 < n) : Significant (significantDigits n) := by
  obtain ⟨k, hk⟩ := significantDigits_append n
  have hne : significantDigits n ≠ [] := by
    intro hempty
    have hvalue := digitsValue_toDigits n
    rw [hk, digitsValue_append_zeros, hempty, digitsValue, List.foldl_nil, zero_mul] at hvalue
    omega
  refine ⟨hne, fun c hc => isDigit_of_mem_toDigits (n := n) c ?_, fun h => ?_⟩
  · rw [hk]
    exact List.mem_append_left _ hc
  · refine head?_toDigits_ne hn ?_
    rw [hk, List.head?_append_of_ne_nil _ hne, h]

lemma value_significantDigits (d : Decimal) :
    (digitsValue (significantDigits d.digits) : ℚ) *
      10 ^ (((Nat.toDigits 10 d.digits).length : ℤ) - 1 + d.exponent + 1 -
        (significantDigits d.digits).length) = d.value := by
  obtain ⟨k, hk⟩ := significantDigits_append d.digits
  have hvalue := digitsValue_toDigits d.digits
  rw [hk, digitsValue_append_zeros] at hvalue
  have hexp : ((Nat.toDigits 10 d.digits).length : ℤ) - 1 + d.exponent + 1 -
      (significantDigits d.digits).length = k + d.exponent := by
    rw [hk, List.length_append, List.length_replicate]
    push_cast
    ring
  have hcast : (d.digits : ℚ) = digitsValue (significantDigits d.digits) * 10 ^ k := by
    exact_mod_cast hvalue.symm
  rw [hexp, Decimal.value, hcast, zpow_add₀ (by norm_num), zpow_natCast, mul_assoc]

section

variable (l : Layout) {x : Binary64} (hx : x.isFinite = true)

include hx

/-- A finite number is written with digits `ds` at a place `top`, or it is a zero. -/
lemma numeral_cases :
    (x.magnitude = 0 ∧ l.magnitudeText x.magnitude = ['0', '.', '0'] ∧
      l.numeral x = { negative := x.isNegative, whole := ['0'], fraction := ['0'] }) ∨
    ∃ (d : Decimal) (ds : List Char) (top : ℤ), 0 < d.digits ∧ d.magnitude = x.magnitude ∧
      Significant ds ∧ (digitsValue ds : ℚ) * 10 ^ (top + 1 - ds.length) = d.value ∧
      ((l.magnitudeText x.magnitude = plain ds top ∧
          l.numeral x = plainNumeral x.isNegative ds top) ∨
        (l.magnitudeText x.magnitude = scientific l.plusSign ds top ∧
          l.numeral x = scientificNumeral x.isNegative ds top)) := by
  have hfin : x.magnitude < Binary64.infinityMagnitude := by
    simpa [Binary64.isFinite] using hx
  unfold magnitudeText numeral
  by_cases hzero : x.magnitude = 0
  · exact Or.inl ⟨hzero, if_pos hzero, if_pos hzero⟩
  · have hm := Nat.pos_of_ne_zero hzero
    have hpos := Decimal.digits_shortest l.tie hm hfin
    refine Or.inr ⟨Decimal.shortest l.tie x.magnitude, _, _, hpos,
      Decimal.magnitude_shortest l.tie hm hfin, significant_significantDigits hpos,
      value_significantDigits _, ?_⟩
    rw [if_neg hzero, if_neg hzero]
    simp only
    split
    · exact Or.inl ⟨rfl, rfl⟩
    · exact Or.inr ⟨rfl, rfl⟩

/-- The text of a finite number is that of its numeral. -/
theorem text_eq : (l.text x).toList = (l.numeral x).text l.plusSign := by
  have hnan : x.isNaN = false := by
    simp only [Binary64.isFinite, Binary64.isNaN, decide_eq_true_eq, decide_eq_false_iff_not] at *
    omega
  have hbody : l.magnitudeText x.magnitude = (l.numeral x).body l.plusSign ∧
      (l.numeral x).negative = x.isNegative := by
    rcases numeral_cases l hx with ⟨-, ht, hn⟩ | ⟨d, ds, top, -, -, hds, -, ⟨ht, hn⟩ | ⟨ht, hn⟩⟩
    · rw [ht, hn]
      exact ⟨rfl, rfl⟩
    · rw [ht, hn, body_plainNumeral hds]
      unfold plainNumeral
      split <;> exact ⟨rfl, rfl⟩
    · rw [ht, hn, body_scientificNumeral]
      exact ⟨rfl, rfl⟩
  unfold Layout.text
  rw [hnan, hx, Numeral.text, hbody.2, ← hbody.1]
  cases x.isNegative <;> simp

lemma wellFormed_numeral : (l.numeral x).WellFormed := by
  rcases numeral_cases l hx with ⟨-, -, hn⟩ | ⟨d, ds, top, -, -, hds, -, ⟨-, hn⟩ | ⟨-, hn⟩⟩
  · rw [hn]
    exact ⟨by simp, by simp, by simp, by simp⟩
  · rw [hn]
    exact wellFormed_plainNumeral hds _ top
  · rw [hn]
    exact wellFormed_scientificNumeral hds _ top

lemma numeral_not_whole : (l.numeral x).fraction ≠ [] ∨ (l.numeral x).exponent ≠ none := by
  rcases numeral_cases l hx with ⟨-, -, hn⟩ | ⟨d, ds, top, -, -, hds, -, ⟨-, hn⟩ | ⟨-, hn⟩⟩
  · rw [hn]
    exact Or.inl (by simp)
  · rw [hn]
    exact Or.inl (fraction_plainNumeral_ne hds _ top)
  · rw [hn]
    exact Or.inr (by simp [scientificNumeral])

/-- **The number nearest to the numeral of a finite number is the number.** -/
theorem nearest_numeral : (l.numeral x).nearest = .ok x := by
  have hfin : x.magnitude < Binary64.infinityMagnitude := by
    simpa [Binary64.isFinite] using hx
  have hself := Binary64.ofMagnitude_magnitude x
  rcases numeral_cases l hx with
    ⟨hm, -, hn⟩ | ⟨d, ds, top, hd, hread, hds, hvalue, ⟨-, hn⟩ | ⟨-, hn⟩⟩
  · rw [hm] at hself
    have hzero : (l.numeral x).nearest = .ok (.ofMagnitude x.isNegative 0) := by
      rw [hn]
      rfl
    rw [hzero, hself]
  · have hnegative : (plainNumeral x.isNegative ds top).negative = x.isNegative := by
      unfold plainNumeral
      split <;> rfl
    have hv := (value_plainNumeral ds x.isNegative top).trans hvalue
    rw [hn, Numeral.nearest_of_value hd hread hfin hv, hnegative, hself]
  · have hv := (value_scientificNumeral hds x.isNegative top).trans hvalue
    rw [hn, Numeral.nearest_of_value hd hread hfin hv]
    exact congrArg _ hself

lemma eq_of_numeral_eq {y : Binary64} (hy : y.isFinite = true)
    (h : l.numeral x = l.numeral y) : x = y := by
  have hnearest := nearest_numeral l hx
  rw [h, nearest_numeral l hy] at hnearest
  cases hnearest
  rfl

end

end Number.Layout

end OpTree
