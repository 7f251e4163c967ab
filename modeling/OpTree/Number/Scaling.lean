import OpTree.Number.Rounding

/-!
Products and quotients of floating point numbers, and the scaling of a number by a power of ten:
one product or quotient, or several where the power itself is no number. Each of them is rounded,
so the outcome can be off by a little from the word that is nearest to the exact value.
-/

namespace OpTree.Number.Binary64

/-- The product of two finite magnitudes. -/
def product (a b : Nat) : Nat :=
  let p := parts a
  let q := parts b
  if p.1 * q.1 = 0 then 0
  else
    let s := scale 2 (p.1 * q.1) 1 (p.2 + q.2)
    nearest s.1 s.2

/-- The quotient of two finite magnitudes, the second of which is not zero. -/
def quotient (a b : Nat) : Nat :=
  let p := parts a
  let q := parts b
  if p.1 = 0 then 0
  else
    let s := scale 2 p.1 q.1 (p.2 - q.2)
    nearest s.1 s.2

/-- The exponent of the greatest power of ten that is finite. -/
def topTen : Nat := 308

def powerOfTen (k : Nat) : Nat := ofDecimal 1 k

/-- The magnitude divided by `10 ^ topTen` so many times. -/
def divideTop : Nat → Nat → Nat
  | 0, m => m
  | k + 1, m => if m = 0 then 0 else divideTop k (quotient m (powerOfTen topTen))

/-- A finite magnitude times `10 ^ e`. -/
def timesTen (m : Nat) (e : Int) : Nat :=
  if m = 0 then 0
  else if topTen < e then infinityMagnitude
  else if 0 ≤ e then product m (powerOfTen e.toNat)
  else
    -- the last quotient is by a power from `10` to `10 ^ topTen`
    let n := (-e).toNat - 1
    quotient (divideTop (n / topTen) m) (powerOfTen (n % topTen + 1))

end OpTree.Number.Binary64
