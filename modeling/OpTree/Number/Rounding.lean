import OpTree.Number.Binary64

/-!
Rounding of decimals to binary floating point: the nearest word, and of two equally near ones
the even one. All arithmetic is on integers.
-/

namespace OpTree.Number

/-- The quotient rounded to the nearest integer, a half to the even neighbour. -/
def roundHalfEven (num den : Nat) : Nat :=
  let q := num / den
  let r := num % den
  if 2 * r < den then q else if den < 2 * r then q + 1 else q + q % 2

/-- The fraction `num / den * base ^ k`, as numerator and denominator. -/
def scale (base num den : Nat) (k : Int) : Nat × Nat :=
  if 0 ≤ k then (num * base.pow k.toNat, den) else (num, den * base.pow (-k).toNat)

/-- The exponent of the greatest power of two that a positive fraction reaches. -/
def floorLog2 (num den : Nat) : Int :=
  let k : Int := (num.log2 : Int) - den.log2
  let s := scale 2 num den (-k)
  if s.2 ≤ s.1 then k else k - 1

namespace Binary64

/-- The magnitude nearest to a positive fraction. A significand that rounds up to `2 ^ 53`
carries into the exponent by itself. -/
def nearest (num den : Nat) : Nat :=
  let e := max (floorLog2 num den - 52) (-1074)
  let s := scale 2 num den (-e)
  min ((e + 1074).toNat * exponentWeight + roundHalfEven s.1 s.2) infinityMagnitude

/-- The magnitude nearest to `digits * 10 ^ exponent`. Exponents far outside the range are
decided from the count of digits, without computing the power. -/
def ofDecimal (digits : Nat) (exponent : Int) : Nat :=
  let size : Int := (Nat.toDigits 10 digits).length + exponent
  if digits = 0 then 0
  else if 310 < size then infinityMagnitude
  else if size < -330 then 0
  else
    let s := scale 10 digits 1 exponent
    nearest s.1 s.2

/-- The word nearest to an integer. -/
def ofInt (n : Int) : Binary64 :=
  ofMagnitude (n < 0) (ofDecimal n.natAbs 0)

end Binary64

end OpTree.Number
