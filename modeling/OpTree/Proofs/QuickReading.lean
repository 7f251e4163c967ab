import OpTree.Proofs.Reading

/-!
What the reader that runs makes of numerals with few digits. An integer below `2 ^ 53` is a floating
point number, and so is a power of ten up to `10 ^ 22`. Where only these are multiplied or divided,
nothing but the outcome is rounded, and the reader finds the nearest number.
-/

namespace OpTree

open OpTree.Number OpTree.Text

namespace Number.Binary64

/-! ### Values that are exact -/

/-- The magnitude stands for the value without having been rounded. -/
structure Exact (m : ℕ) (v : ℚ) : Prop where
  pos : 0 < m
  lt : m < infinityMagnitude
  value_eq : value m = v

lemma exists_exact {p j : ℕ} (hp : 0 < p) (hlt : p < 2 ^ 53) (hj : j ≤ 22) :
    ∃ m, Exact m (p * 2 ^ j) := by
  have hweight : exponentWeight = 2 ^ 52 := by decide
  have hlow := Nat.log2_self_le hp.ne'
  have hhigh := @Nat.lt_log2_self p
  have hlog : p.log2 ≤ 52 := by
    by_contra h
    have hpow : 2 ^ 53 ≤ 2 ^ p.log2 := Nat.pow_le_pow_right two_pos (by omega)
    omega
  -- the significand is shifted until it uses all 53 bits
  obtain ⟨k, hk⟩ := Nat.exists_eq_add_of_le hlog
  generalize p.log2 = l at *
  have hfull : 2 ^ 52 ≤ p * 2 ^ k := by
    rw [hk, pow_add]
    exact Nat.mul_le_mul_right _ hlow
  have hfits : p * 2 ^ k < 2 ^ 53 := by
    calc p * 2 ^ k < 2 ^ (l + 1) * 2 ^ k := Nat.mul_lt_mul_of_pos_right hhigh (Nat.two_pow_pos k)
      _ = 2 ^ 53 := by rw [← pow_add]; congr 1; omega
  obtain ⟨f, hf⟩ := Nat.exists_eq_add_of_le hfull
  have hdiv : ((j + l + 1023) * exponentWeight + f) / exponentWeight = j + l + 1023 := by
    rw [hweight]
    omega
  have hmod : ((j + l + 1023) * exponentWeight + f) % exponentWeight = f := by
    rw [hweight]
    omega
  have hexp : ((j + l + 1023 : ℕ) : ℤ) - 1075 = j - k := by omega
  refine ⟨(j + l + 1023) * exponentWeight + f, by rw [hweight]; omega, ?_, ?_⟩
  · unfold infinityMagnitude
    rw [hweight]
    omega
  · unfold value parts
    simp only [hdiv, hmod]
    rw [if_neg (by omega), hexp, hweight, ← hf, zpow_sub₀ two_ne_zero, zpow_natCast, zpow_natCast]
    push_cast
    field_simp

lemma Exact.ofDecimal {m n : ℕ} {e : ℤ} {v : ℚ} (h : Exact m v) (hn : 0 < n)
    (hv : (n : ℚ) * 10 ^ e = v) : Exact (Binary64.ofDecimal n e) v := by
  rw [ofDecimal_of_value h.pos h.lt hn (hv.trans h.value_eq.symm)]
  exact h

lemma exact_integer {n : ℕ} (hn : 0 < n) (hlt : n < 2 ^ 53) : Exact (ofDecimal n 0) n := by
  obtain ⟨m, hm⟩ := exists_exact hn hlt (Nat.zero_le 22)
  rw [pow_zero, mul_one] at hm
  exact hm.ofDecimal hn (by rw [zpow_zero, mul_one])

lemma exact_powerOfTen {k : ℕ} (hk : k ≤ 22) : Exact (powerOfTen k) (10 ^ k) := by
  have hfive : 5 ^ k < 2 ^ 53 :=
    lt_of_le_of_lt (Nat.pow_le_pow_right (by norm_num) hk) (by norm_num)
  obtain ⟨m, hm⟩ := exists_exact (Nat.pow_pos (by norm_num)) hfive hk
  have hten : ((5 ^ k : ℕ) : ℚ) * 2 ^ k = 10 ^ k := by
    rw [Nat.cast_pow, ← mul_pow]
    norm_num
  rw [hten] at hm
  exact hm.ofDecimal one_pos (by rw [Nat.cast_one, one_mul, zpow_natCast])

section

variable {a b n d : ℕ} {v w : ℚ} (ha : Exact a v) (hb : Exact b w) (hn : 0 < n) (hd : 0 < d)

include ha hb hn hd

lemma product_of_exact (h : (n : ℚ) / d = v * w) : product a b = nearest n d := by
  have hp := (splits_parts ha.pos ha.lt).pos
  have hq := (splits_parts hb.pos hb.lt).pos
  have hpos := scale_pos two_pos (Nat.mul_pos hp hq) one_pos ((parts a).2 + (parts b).2)
  unfold product
  simp only
  rw [if_neg (Nat.mul_pos hp hq).ne']
  refine nearest_congr hpos.1 hpos.2 hn hd ?_
  rw [scale_value two_pos, h, ← ha.value_eq, ← hb.value_eq, value, value, Nat.cast_one, div_one,
    Nat.cast_two, zpow_add₀ two_ne_zero, Nat.cast_mul]
  ring

lemma quotient_of_exact (h : (n : ℚ) / d = v / w) : quotient a b = nearest n d := by
  have hp := (splits_parts ha.pos ha.lt).pos
  have hq := (splits_parts hb.pos hb.lt).pos
  have hpos := scale_pos two_pos hp hq ((parts a).2 - (parts b).2)
  unfold quotient
  simp only
  rw [if_neg hp.ne']
  refine nearest_congr hpos.1 hpos.2 hn hd ?_
  rw [scale_value two_pos, h, ← ha.value_eq, ← hb.value_eq, value, value, Nat.cast_two,
    zpow_sub₀ two_ne_zero]
  field_simp

end

/-! ### Scaling -/

lemma ofDecimal_eq_nearest {n : ℕ} {e : ℤ} (hn : 0 < n) (hlt : n < 2 ^ 53) (hlow : -22 ≤ e)
    (hhigh : e ≤ 22) : ofDecimal n e = nearest (scale 10 n 1 e).1 (scale 10 n 1 e).2 := by
  have hlength : (Nat.toDigits 10 n).length ≤ 16 :=
    (Nat.length_toDigits_le_iff (by norm_num) (by norm_num)).mpr (lt_trans hlt (by norm_num))
  unfold ofDecimal
  simp only
  rw [if_neg hn.ne', if_neg (by omega), if_neg (by omega)]

/-- One product or quotient of exact numbers gives the number nearest to its value. -/
lemma timesTen_ofDecimal {n : ℕ} {e : ℤ} (hlt : n < 2 ^ 53) (hlow : -22 ≤ e) (hhigh : e ≤ 22) :
    timesTen (ofDecimal n 0) e = ofDecimal n e := by
  rcases Nat.eq_zero_or_pos n with rfl | hn
  · simp [timesTen, ofDecimal]
  have hexact := exact_integer hn hlt
  have hpos := @scale_pos 10 n 1 (by norm_num) hn one_pos e
  have hvalue := @scale_value 10 n 1 (by norm_num) e
  rw [Nat.cast_one, div_one, Nat.cast_ofNat] at hvalue
  rw [ofDecimal_eq_nearest hn hlt hlow hhigh]
  unfold timesTen topTen
  rw [if_neg hexact.pos.ne', if_neg (by omega)]
  split
  · rename_i he
    obtain ⟨k, rfl⟩ := Int.eq_ofNat_of_zero_le he
    rw [zpow_natCast] at hvalue
    exact product_of_exact hexact (exact_powerOfTen (by omega)) hpos.1 hpos.2 hvalue
  · obtain ⟨k, rfl⟩ : ∃ k : ℕ, e = -((k + 1 : ℕ) : ℤ) := ⟨(-e).toNat - 1, by omega⟩
    have hdiv : ((-(-((k + 1 : ℕ) : ℤ))).toNat - 1) / 308 = 0 := by omega
    have hmod : ((-(-((k + 1 : ℕ) : ℤ))).toNat - 1) % 308 + 1 = k + 1 := by omega
    rw [zpow_neg, zpow_natCast, ← div_eq_mul_inv] at hvalue
    simp only [hdiv, hmod, divideTop]
    exact quotient_of_exact hexact (exact_powerOfTen (by omega)) hpos.1 hpos.2 hvalue

end Number.Binary64

namespace Json

namespace Numeral

/-! ### Numerals -/

lemma takeDigits_eq (ds : List Char) {s : ℕ}
    (h : s * 10 ^ ds.length + digitsValue ds < sizeLimit) :
    takeDigits s ds = (s * 10 ^ ds.length + digitsValue ds, 0) := by
  induction ds generalizing s with
  | nil => simp [takeDigits, digitsValue]
  | cons d ds ih =>
    have hvalue : s * 10 ^ (d :: ds).length + digitsValue (d :: ds) =
        (digitsValue [d] + 10 * s) * 10 ^ ds.length + digitsValue ds := by
      rw [← List.singleton_append, digitsValue_append, List.length_append, List.length_singleton,
        pow_add]
      ring
    rw [hvalue] at h ⊢
    have hnext : digitsValue [d] + 10 * s < sizeLimit :=
      lt_of_le_of_lt (Nat.le_mul_of_pos_right _ (Nat.pow_pos (by norm_num)))
        (lt_of_le_of_lt (Nat.le_add_right _ _) h)
    rw [takeDigits, if_pos hnext, ih h]

/-- A numeral with few digits, which stand not far from the point. -/
structure Short (n : Numeral) : Prop where
  digits : n.digits < 2 ^ 53
  low : -22 ≤ n.place
  high : n.place ≤ 22

instance (n : Numeral) : Decidable n.Short :=
  decidable_of_iff (_ ∧ _ ∧ _) ⟨fun h => ⟨h.1, h.2.1, h.2.2⟩, fun h => ⟨h.1, h.2, h.3⟩⟩

lemma quickMagnitude_of_short {n : Numeral} (h : n.Short) :
    n.quickMagnitude = Binary64.ofDecimal n.digits n.place := by
  have hdigits := h.digits
  rw [digits, digitsValue_append] at hdigits
  have hlimit : (2 : ℕ) ^ 53 < sizeLimit := by decide
  have hle : digitsValue n.whole ≤ digitsValue n.whole * 10 ^ n.fraction.length :=
    Nat.le_mul_of_pos_right _ (Nat.pow_pos (by norm_num))
  have hwhole : takeDigits 0 n.whole = (digitsValue n.whole, 0) := by
    simpa using takeDigits_eq n.whole (s := 0) (by omega)
  have hall := takeDigits_eq n.fraction (s := digitsValue n.whole) (by omega)
  rw [← digitsValue_append, ← digits] at hall
  rw [quickMagnitude, hwhole]
  simp only [hall, Nat.cast_zero, add_zero]
  exact Binary64.timesTen_ofDecimal h.digits h.low h.high

/-- **Of a short numeral the reader that runs finds the nearest number.** -/
theorem read_of_short {n : Numeral} (h : n.Short) : FloatReader.read n = n.nearest := by
  change n.signed n.quickMagnitude = n.nearest
  rw [quickMagnitude_of_short h, nearest]

end Numeral

/-- **A number that is written with few digits is read back.** -/
theorem readsBack_of_short {x : Binary64} (h : (numberLayout.numeral x).Short) : ReadsBack x := by
  refine readsBack_iff.mpr fun hx => ?_
  rw [Numeral.read_of_short h, Layout.nearest_numeral numberLayout hx]

/-- A number that is written with seventeen digits can come back as its neighbour. -/
example : ¬ ReadsBack ⟨4594874364574226720⟩ := by decide +kernel

end Json

end OpTree
