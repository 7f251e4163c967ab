import OpTree.Number.Shortest
import Mathlib.Data.Int.Log
import Mathlib.Data.Rat.Floor
import Mathlib.Tactic.Linarith
import Mathlib.Tactic.Ring
import Mathlib.Tactic.Positivity
import Mathlib.Tactic.FieldSimp

/-!
Rounding as a function of values. The nearest word to a fraction depends on the fraction as a
rational number only, so a decimal can be written with more or fewer zeros; the nearest word to
the value of a word is the word itself; and the shortest decimal reads back.
-/

namespace OpTree.Number

/-! ### Fractions as rational numbers -/

section Fractions

variable {base num den : ℕ}

lemma scale_pos (hb : 0 < base) (hn : 0 < num) (hd : 0 < den) (k : ℤ) :
    0 < (scale base num den k).1 ∧ 0 < (scale base num den k).2 := by
  unfold scale
  split
  · exact ⟨Nat.mul_pos hn (Nat.pow_pos hb), hd⟩
  · exact ⟨hn, Nat.mul_pos hd (Nat.pow_pos hb)⟩

lemma scale_value (hb : 0 < base) (k : ℤ) :
    ((scale base num den k).1 : ℚ) / (scale base num den k).2 = num / den * (base : ℚ) ^ k := by
  have hbase : (base : ℚ) ≠ 0 := by exact_mod_cast hb.ne'
  unfold scale
  split
  · rename_i hk
    obtain ⟨n, rfl⟩ := Int.eq_ofNat_of_zero_le hk
    simp only [Int.toNat_natCast, Nat.pow_eq, zpow_natCast]
    push_cast
    ring
  · rename_i hk
    obtain ⟨n, hn⟩ : ∃ n : ℕ, k = -(n : ℤ) := ⟨(-k).toNat, by omega⟩
    subst hn
    simp only [neg_neg, Int.toNat_natCast, Nat.pow_eq, zpow_neg, zpow_natCast]
    push_cast
    rw [div_mul_eq_div_div, div_eq_mul_inv]

lemma floorLog2_eq (hn : 0 < num) (hd : 0 < den) :
    floorLog2 num den = Int.log 2 ((num : ℚ) / den) := by
  have hv : (0 : ℚ) < num / den := by positivity
  have htwo (k : ℤ) : (0 : ℚ) < ((2 : ℕ) : ℚ) ^ k := zpow_pos (by norm_num) k
  have hlow := Nat.log2_self_le hn.ne'
  have hhigh := @Nat.lt_log2_self num
  have hlow' := Nat.log2_self_le hd.ne'
  have hhigh' := @Nat.lt_log2_self den
  generalize ha : num.log2 = a at *
  generalize hb : den.log2 = b at *
  have hlower : (a : ℤ) - b - 1 ≤ Int.log 2 ((num : ℚ) / den) := by
    rw [← Int.zpow_le_iff_le_log one_lt_two hv, le_div_iff₀ (by positivity)]
    calc ((2 : ℕ) : ℚ) ^ ((a : ℤ) - b - 1) * den
        ≤ ((2 : ℕ) : ℚ) ^ ((a : ℤ) - b - 1) * 2 ^ (b + 1) := by
          exact mul_le_mul_of_nonneg_left (by exact_mod_cast hhigh'.le) (htwo _).le
      _ = 2 ^ a := by
          rw [← zpow_natCast, ← zpow_natCast, Nat.cast_ofNat, ← zpow_add₀ two_ne_zero]
          congr 1
          push_cast
          ring
      _ ≤ num := by exact_mod_cast hlow
  have hupper : Int.log 2 ((num : ℚ) / den) < (a : ℤ) - b + 1 := by
    rw [← Int.lt_zpow_iff_log_lt one_lt_two hv, div_lt_iff₀ (by positivity)]
    calc (num : ℚ) < 2 ^ (a + 1) := by exact_mod_cast hhigh
      _ = ((2 : ℕ) : ℚ) ^ ((a : ℤ) - b + 1) * 2 ^ b := by
          rw [← zpow_natCast, ← zpow_natCast, Nat.cast_ofNat, ← zpow_add₀ two_ne_zero]
          congr 1
          push_cast
          ring
      _ ≤ ((2 : ℕ) : ℚ) ^ ((a : ℤ) - b + 1) * den := by
          exact mul_le_mul_of_nonneg_left (by exact_mod_cast hlow') (htwo _).le
  -- the comparison of the scaled parts decides between the two candidates
  have hpos := scale_pos two_pos hn hd (-((a : ℤ) - b))
  have hscale := @scale_value 2 num den two_pos (-((a : ℤ) - b))
  have hcompare : (scale 2 num den (-((a : ℤ) - b))).2 ≤ (scale 2 num den (-((a : ℤ) - b))).1 ↔
      (a : ℤ) - b ≤ Int.log 2 ((num : ℚ) / den) := by
    have hsnd : (0 : ℚ) < (scale 2 num den (-((a : ℤ) - b))).2 := by exact_mod_cast hpos.2
    rw [← Int.zpow_le_iff_le_log one_lt_two hv, ← Nat.cast_le (α := ℚ), ← one_le_div₀ hsnd, hscale,
      zpow_neg, ← div_eq_mul_inv, one_le_div₀ (htwo _)]
  unfold floorLog2
  rw [ha, hb]
  simp only [hcompare]
  split <;> omega

lemma roundHalfEven_mul {c : ℕ} (hc : 0 < c) (n d : ℕ) :
    roundHalfEven (c * n) (c * d) = roundHalfEven n d := by
  have hq : c * n / (c * d) = n / d := Nat.mul_div_mul_left _ _ hc
  have hr : c * n % (c * d) = c * (n % d) := Nat.mul_mod_mul_left _ _ _
  have hlt : 2 * (c * (n % d)) < c * d ↔ 2 * (n % d) < d := by
    rw [mul_left_comm, Nat.mul_lt_mul_left hc]
  have hgt : c * d < 2 * (c * (n % d)) ↔ d < 2 * (n % d) := by
    rw [mul_left_comm, Nat.mul_lt_mul_left hc]
  unfold roundHalfEven
  simp only [hq, hr, hlt, hgt]

lemma roundHalfEven_congr {n d n' d' : ℕ} (hd : 0 < d) (hd' : 0 < d')
    (h : (n : ℚ) / d = n' / d') : roundHalfEven n d = roundHalfEven n' d' := by
  have hcross : d' * n = d * n' := by
    rw [div_eq_div_iff (by exact_mod_cast hd.ne') (by exact_mod_cast hd'.ne')] at h
    have h' : n * d' = n' * d := by exact_mod_cast h
    rw [mul_comm d', mul_comm d, h']
  rw [← roundHalfEven_mul hd' n d, ← roundHalfEven_mul hd n' d', hcross, mul_comm d']

lemma roundHalfEven_of_value {n d p : ℕ} (hd : 0 < d) (h : (n : ℚ) / d = p) :
    roundHalfEven n d = p := by
  have hone : (n : ℚ) / d = p / (1 : ℕ) := by rw [h, Nat.cast_one, div_one]
  rw [roundHalfEven_congr hd one_pos hone]
  simp [roundHalfEven, Nat.mod_one]

lemma roundHalfEven_le {n d k : ℕ} (hd : 0 < d) (h : (n : ℚ) / d < k) : roundHalfEven n d ≤ k := by
  have hlt : n / d < k := by
    rw [div_lt_iff₀ (by exact_mod_cast hd)] at h
    rw [Nat.div_lt_iff_lt_mul hd]
    exact_mod_cast h
  unfold roundHalfEven
  have hmod := Nat.mod_two_eq_zero_or_one (n / d)
  simp only
  split
  · omega
  · split <;> omega

end Fractions

namespace Binary64

@[simp] lemma ofMagnitude_magnitude (x : Binary64) :
    ofMagnitude x.isNegative x.magnitude = x := by
  have hlt := x.bits.toNat_lt
  have hbits : (if x.isNegative then signWeight + x.magnitude else x.magnitude) = x.bits.toNat := by
    unfold isNegative magnitude
    by_cases h : signWeight ≤ x.bits.toNat
    · rw [decide_eq_true h, if_pos rfl]
      unfold signWeight at *
      omega
    · rw [decide_eq_false h, if_neg Bool.false_ne_true]
      unfold signWeight at *
      omega
  rw [ofMagnitude, hbits, UInt64.ofNat_toNat]

/-- The nearest magnitude depends on the value of a fraction only. -/
theorem nearest_congr {n d n' d' : ℕ} (hn : 0 < n) (hd : 0 < d) (hn' : 0 < n') (hd' : 0 < d')
    (h : (n : ℚ) / d = n' / d') : nearest n d = nearest n' d' := by
  have hlog : floorLog2 n d = floorLog2 n' d' := by
    rw [floorLog2_eq hn hd, floorLog2_eq hn' hd', h]
  have hround (k : ℤ) : roundHalfEven (scale 2 n d k).1 (scale 2 n d k).2 =
      roundHalfEven (scale 2 n' d' k).1 (scale 2 n' d' k).2 :=
    roundHalfEven_congr (scale_pos two_pos hn hd k).2 (scale_pos two_pos hn' hd' k).2
      (by rw [scale_value two_pos, scale_value two_pos, h])
  unfold nearest
  simp only [hlog, hround]

/-! ### The value of a magnitude -/

/-- The number that a finite magnitude stands for. -/
def value (m : ℕ) : ℚ := (parts m).1 * 2 ^ (parts m).2

/-- What the significand `p` and the exponent `q` of a finite magnitude have to be. -/
structure Splits (m p : ℕ) (q : ℤ) : Prop where
  pos : 0 < p
  lt : p < 2 ^ 53
  least : -1074 ≤ q
  most : q ≤ 971
  /-- All 53 bits are used, unless the exponent is the least one. -/
  full : q = -1074 ∨ 2 ^ 52 ≤ p
  eq : m = (q + 1074).toNat * exponentWeight + p

lemma splits_parts {m : ℕ} (hm : 0 < m) (hfin : m < infinityMagnitude) :
    Splits m (parts m).1 (parts m).2 := by
  have hweight : exponentWeight = 2 ^ 52 := by decide
  have hpos : 0 < exponentWeight := by decide
  have hmod := Nat.mod_lt m hpos
  have hdecomp := Nat.div_add_mod' m exponentWeight
  unfold parts
  simp only
  generalize m % exponentWeight = f at *
  by_cases he : m / exponentWeight = 0
  · rw [if_pos he]
    rw [he] at hdecomp
    exact ⟨by omega, by omega, by omega, by omega, Or.inl rfl, by simp; omega⟩
  · have hle : m / exponentWeight < 0x7ff := (Nat.div_lt_iff_lt_mul hpos).mpr hfin
    obtain ⟨e, he'⟩ := Nat.exists_eq_succ_of_ne_zero he
    rw [if_neg he]
    rw [he'] at hdecomp hle ⊢
    have hexp : (((e.succ : ℕ) : ℤ) - 1075 + 1074).toNat = e := by omega
    refine ⟨by omega, by omega, by omega, by omega, Or.inr (by omega), ?_⟩
    rw [hexp, ← hdecomp, Nat.succ_eq_add_one]
    ring

section Value

variable {m : ℕ} (hm : 0 < m) (hfin : m < infinityMagnitude)

include hm hfin

lemma value_pos : 0 < value m := by
  have hp : (0 : ℚ) < (parts m).1 := by exact_mod_cast (splits_parts hm hfin).pos
  exact mul_pos hp (zpow_pos two_pos _)

lemma log_value : max (Int.log 2 (value m) - 52) (-1074) = (parts m).2 := by
  have hs := splits_parts hm hfin
  have hv := value_pos hm hfin
  have htwo : (0 : ℚ) < 2 ^ (parts m).2 := zpow_pos two_pos _
  have hupper : Int.log 2 (value m) < 53 + (parts m).2 := by
    rw [← Int.lt_zpow_iff_log_lt one_lt_two hv, Nat.cast_ofNat, zpow_add₀ two_ne_zero]
    refine mul_lt_mul_of_pos_right ?_ htwo
    exact_mod_cast hs.lt
  have hlower : 2 ^ 52 ≤ (parts m).1 → 52 + (parts m).2 ≤ Int.log 2 (value m) := by
    intro hfull
    rw [← Int.zpow_le_iff_le_log one_lt_two hv, Nat.cast_ofNat, zpow_add₀ two_ne_zero]
    refine mul_le_mul_of_nonneg_right ?_ htwo.le
    exact_mod_cast hfull
  have hleast := hs.least
  rcases hs.full with hq | hfull
  · omega
  · have := hlower hfull
    omega

/-- **Rounding gives a magnitude back**: the nearest magnitude to the value of one is itself. -/
theorem nearest_of_value {n d : ℕ} (hn : 0 < n) (hd : 0 < d) (h : (n : ℚ) / d = value m) :
    nearest n d = m := by
  have hs := splits_parts hm hfin
  have hround : roundHalfEven (scale 2 n d (-(parts m).2)).1 (scale 2 n d (-(parts m).2)).2 =
      (parts m).1 := by
    refine roundHalfEven_of_value (scale_pos two_pos hn hd _).2 ?_
    rw [scale_value two_pos, h, value, Nat.cast_ofNat, mul_assoc, ← zpow_add₀ two_ne_zero,
      add_neg_cancel, zpow_zero, mul_one]
  unfold nearest
  rw [floorLog2_eq hn hd, h, log_value hm hfin]
  simp only [hround]
  rw [← hs.eq]
  exact min_eq_left hfin.le

end Value

/-! ### Finite words -/

lemma nearest_lt {n d : ℕ} (hn : 0 < n) (hd : 0 < d) (h : Int.log 2 ((n : ℚ) / d) < 1023) :
    nearest n d < infinityMagnitude := by
  have hv : (0 : ℚ) < n / d := by positivity
  have hupper := Int.lt_zpow_succ_log_self one_lt_two ((n : ℚ) / d)
  unfold nearest
  rw [floorLog2_eq hn hd]
  generalize Int.log 2 ((n : ℚ) / d) = k at *
  generalize he : max (k - 52) (-1074) = e
  have hround : roundHalfEven (scale 2 n d (-e)).1 (scale 2 n d (-e)).2 ≤ 2 ^ 53 := by
    refine roundHalfEven_le (scale_pos two_pos hn hd _).2 ?_
    rw [scale_value two_pos]
    calc (n : ℚ) / d * ((2 : ℕ) : ℚ) ^ (-e)
        < ((2 : ℕ) : ℚ) ^ (k + 1) * ((2 : ℕ) : ℚ) ^ (-e) :=
          mul_lt_mul_of_pos_right hupper (zpow_pos (by norm_num) _)
      _ = ((2 : ℕ) : ℚ) ^ (k + 1 - e) := by
          rw [← zpow_add₀ (by norm_num), sub_eq_add_neg]
      _ ≤ ((2 : ℕ) : ℚ) ^ ((53 : ℕ) : ℤ) := zpow_le_zpow_right₀ (by norm_num) (by omega)
      _ = ((2 ^ 53 : ℕ) : ℚ) := by norm_num
  have hexp : (e + 1074).toNat ≤ 2044 := by omega
  have hmul := Nat.mul_le_mul_right exponentWeight hexp
  simp only
  refine lt_of_le_of_lt (min_le_left _ _) ?_
  unfold infinityMagnitude exponentWeight at *
  omega

lemma isFinite_ofInt {k : ℤ} (hk : k.natAbs < 0x10000000000000000) :
    (ofInt k).isFinite = true := by
  refine isFinite_ofMagnitude _ ?_
  unfold ofDecimal
  by_cases hzero : k.natAbs = 0
  · rw [if_pos hzero]
    decide
  · have hpos := Nat.pos_of_ne_zero hzero
    have hlength : (Nat.toDigits 10 k.natAbs).length ≤ 20 :=
      (Nat.length_toDigits_le_iff (by norm_num) (by norm_num)).mpr
        (lt_trans hk (by norm_num))
    have hlog : Int.log 2 ((k.natAbs : ℚ) / (1 : ℕ)) < 1023 := by
      rw [Nat.cast_one, div_one, Int.log_natCast]
      have hlt := Nat.log_lt_of_lt_pow hzero (show k.natAbs < 2 ^ 64 from hk)
      omega
    rw [if_neg hzero, if_neg (by omega), if_neg (by omega)]
    simpa [scale] using nearest_lt hpos one_pos hlog

/-! ### Decimals -/

lemma length_toDigits {n : ℕ} (hn : 0 < n) :
    ((Nat.toDigits 10 n).length : ℤ) = Nat.log 10 n + 1 := by
  have hle := (Nat.length_toDigits_le_iff (b := 10) (n := n) (k := Nat.log 10 n + 1) (by norm_num)
    (by omega)).mpr (Nat.lt_pow_succ_log_self (by norm_num) n)
  have hge : ¬ (Nat.toDigits 10 n).length ≤ Nat.log 10 n := by
    intro h
    have hpos : 0 < Nat.log 10 n := lt_of_lt_of_le Nat.length_toDigits_pos h
    have hlt := (Nat.length_toDigits_le_iff (b := 10) (by norm_num) hpos).mp h
    exact absurd (Nat.pow_log_le_self 10 hn.ne') (by omega)
  omega

lemma size_eq_log {n : ℕ} (hn : 0 < n) (e : ℤ) :
    ((Nat.toDigits 10 n).length : ℤ) + e = Int.log 10 ((n : ℚ) * 10 ^ e) + 1 := by
  have hten : (0 : ℚ) < 10 ^ e := zpow_pos (by norm_num) _
  have hpos : (0 : ℚ) < n * 10 ^ e := mul_pos (by exact_mod_cast hn) hten
  have hlower : (Nat.log 10 n : ℤ) + e ≤ Int.log 10 ((n : ℚ) * 10 ^ e) := by
    rw [← Int.zpow_le_iff_le_log (by norm_num) hpos, Nat.cast_ofNat, zpow_add₀ (by norm_num),
      zpow_natCast]
    refine mul_le_mul_of_nonneg_right ?_ hten.le
    exact_mod_cast Nat.pow_log_le_self 10 hn.ne'
  have hupper : Int.log 10 ((n : ℚ) * 10 ^ e) < ((Nat.log 10 n + 1 : ℕ) : ℤ) + e := by
    rw [← Int.lt_zpow_iff_log_lt (by norm_num) hpos, Nat.cast_ofNat, zpow_add₀ (by norm_num),
      zpow_natCast]
    refine mul_lt_mul_of_pos_right ?_ hten
    exact_mod_cast Nat.lt_pow_succ_log_self (by norm_num) n
  rw [length_toDigits hn]
  push_cast at hupper
  omega

/-- The reading of a decimal depends on its value only. -/
theorem ofDecimal_congr {n n' : ℕ} {e e' : ℤ} (hn : 0 < n) (hn' : 0 < n')
    (h : (n : ℚ) * 10 ^ e = n' * 10 ^ e') : ofDecimal n e = ofDecimal n' e' := by
  have hsize : ((Nat.toDigits 10 n).length : ℤ) + e = (Nat.toDigits 10 n').length + e' := by
    rw [size_eq_log hn, size_eq_log hn', h]
  have hpos := @scale_pos 10 n 1 (by norm_num) hn one_pos e
  have hpos' := @scale_pos 10 n' 1 (by norm_num) hn' one_pos e'
  have hnear : nearest (scale 10 n 1 e).1 (scale 10 n 1 e).2 =
      nearest (scale 10 n' 1 e').1 (scale 10 n' 1 e').2 := by
    refine nearest_congr hpos.1 hpos.2 hpos'.1 hpos'.2 ?_
    rw [scale_value (by norm_num), scale_value (by norm_num), Nat.cast_one, div_one, div_one]
    exact_mod_cast h
  unfold ofDecimal
  simp only [hn.ne', hn'.ne', if_false, hsize, hnear]

lemma log_ten_value {m : ℕ} (hm : 0 < m) (hfin : m < infinityMagnitude) :
    -324 ≤ Int.log 10 (value m) ∧ Int.log 10 (value m) < 309 := by
  have hs := splits_parts hm hfin
  have hv := value_pos hm hfin
  constructor
  · rw [← Int.zpow_le_iff_le_log (by norm_num) hv, Nat.cast_ofNat]
    have hleast : (2 : ℚ) ^ 1074 ≤ 10 ^ 324 := by
      have h : 2 ^ 1074 ≤ 10 ^ 324 := by decide +kernel
      exact_mod_cast h
    calc (10 : ℚ) ^ (-324 : ℤ) ≤ 1 * 2 ^ (-1074 : ℤ) := by
          rw [one_mul, zpow_neg, zpow_neg, zpow_ofNat, zpow_ofNat]
          exact inv_anti₀ (by positivity) hleast
      _ ≤ (parts m).1 * 2 ^ (parts m).2 := by
          have hp : (1 : ℚ) ≤ (parts m).1 := by exact_mod_cast hs.pos
          have hq : (2 : ℚ) ^ (-1074 : ℤ) ≤ 2 ^ (parts m).2 :=
            zpow_le_zpow_right₀ (by norm_num) hs.least
          exact mul_le_mul hp hq (zpow_pos two_pos _).le (by positivity)
  · rw [← Int.lt_zpow_iff_log_lt (by norm_num) hv, Nat.cast_ofNat]
    have hmost : (2 : ℚ) ^ 1024 < 10 ^ 309 := by
      have h : 2 ^ 1024 < 10 ^ 309 := by decide +kernel
      exact_mod_cast h
    calc ((parts m).1 : ℚ) * 2 ^ (parts m).2 ≤ 2 ^ (53 : ℤ) * 2 ^ (971 : ℤ) := by
          have hp : ((parts m).1 : ℚ) ≤ 2 ^ (53 : ℤ) := by exact_mod_cast hs.lt.le
          have hq : (2 : ℚ) ^ (parts m).2 ≤ 2 ^ (971 : ℤ) :=
            zpow_le_zpow_right₀ (by norm_num) hs.most
          exact mul_le_mul hp hq (zpow_pos two_pos _).le (by positivity)
      _ = 2 ^ 1024 := by
          rw [← zpow_add₀ two_ne_zero, ← zpow_natCast]
          norm_num
      _ < 10 ^ (309 : ℤ) := by rwa [zpow_ofNat]

/-- A decimal with the value of a magnitude is read as this magnitude. -/
theorem ofDecimal_of_value {m n : ℕ} {e : ℤ} (hm : 0 < m) (hfin : m < infinityMagnitude)
    (hn : 0 < n) (h : (n : ℚ) * 10 ^ e = value m) : ofDecimal n e = m := by
  have hsize := size_eq_log hn e
  rw [h] at hsize
  obtain ⟨hlow, hhigh⟩ := log_ten_value hm hfin
  have hpos := @scale_pos 10 n 1 (by norm_num) hn one_pos e
  have hnear : nearest (scale 10 n 1 e).1 (scale 10 n 1 e).2 = m := by
    refine nearest_of_value hm hfin hpos.1 hpos.2 ?_
    rw [scale_value (by norm_num), Nat.cast_one, div_one, ← h, Nat.cast_ofNat]
  unfold ofDecimal
  simp only [hn.ne', if_false, hnear]
  rw [if_neg (by omega), if_neg (by omega)]

end Binary64

/-! ### The shortest decimal -/

namespace Decimal

open Binary64

def value (d : Decimal) : ℚ := d.digits * 10 ^ d.exponent

lemma magnitude_neighbour {tie : Tie} {m num den : ℕ} {e : ℤ} {d : Decimal}
    (h : neighbour? tie m num den e = some d) : d.magnitude = m := by
  unfold neighbour? at h
  simp only at h
  split at h
  · rename_i hlower
    split at h
    · rename_i hupper
      obtain rfl := Option.some.inj h
      unfold nearer
      repeat' split
      all_goals assumption
    · obtain rfl := Option.some.inj h
      exact hlower
  · split at h
    · rename_i hupper
      obtain rfl := Option.some.inj h
      exact hupper
    · cases h

lemma value_exact {m : ℕ} : (exact m).value = Binary64.value m := by
  unfold exact Binary64.value
  simp only
  generalize (parts m).1 = p
  generalize (parts m).2 = q
  split
  · rename_i hq
    obtain ⟨n, rfl⟩ := Int.eq_ofNat_of_zero_le hq
    simp [value]
  · obtain ⟨n, hn⟩ : ∃ n : ℕ, q = -(n : ℤ) := ⟨(-q).toNat, by omega⟩
    subst hn
    have hten : (10 : ℚ) ^ n = 5 ^ n * 2 ^ n := by rw [← mul_pow]; norm_num
    simp only [value, neg_neg, Int.toNat_natCast, Nat.pow_eq, zpow_neg, zpow_natCast, hten]
    push_cast
    field_simp

lemma magnitude_exact {m : ℕ} (hm : 0 < m) (hfin : m < infinityMagnitude) :
    (exact m).magnitude = m := by
  have hvalue := value_exact (m := m)
  have hpos := value_pos hm hfin
  rw [← hvalue, value] at hpos
  have hdigits : 0 < (exact m).digits := by
    refine Nat.pos_of_ne_zero fun h => ?_
    rw [h, Nat.cast_zero, zero_mul] at hpos
    exact absurd hpos (lt_irrefl _)
  exact ofDecimal_of_value hm hfin hdigits hvalue

/-- **The shortest decimal reads back.** -/
theorem magnitude_shortest (tie : Tie) {m : ℕ} (hm : 0 < m) (hfin : m < infinityMagnitude) :
    (shortest tie m).magnitude = m := by
  unfold shortest
  rw [if_neg hm.ne']
  simp only
  generalize hfound : List.findSome? _ (List.range 17) = found
  cases found with
  | none => exact magnitude_exact hm hfin
  | some d =>
    obtain ⟨n, -, hn⟩ := List.exists_of_findSome?_eq_some hfound
    exact magnitude_neighbour hn

lemma digits_shortest (tie : Tie) {m : ℕ} (hm : 0 < m) (hfin : m < infinityMagnitude) :
    0 < (shortest tie m).digits := by
  refine Nat.pos_of_ne_zero fun hzero => ?_
  have hread := magnitude_shortest tie hm hfin
  rw [magnitude, hzero, ofDecimal, if_pos rfl] at hread
  omega

end Decimal

end OpTree.Number
