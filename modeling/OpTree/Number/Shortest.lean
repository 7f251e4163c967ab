import OpTree.Number.Rounding

/-!
The shortest decimal that reads back as a given floating point magnitude.

For one digit, two digits and so on, the two neighbours of the value on that decimal grid are
tried; the first grid with a neighbour that reads back wins, and of two such neighbours the
nearer one.
-/

namespace OpTree.Number

/-- Which of two equally near decimals is taken. -/
inductive Tie
  | up
  | even
  deriving DecidableEq

/-- The number `digits * 10 ^ exponent`. -/
structure Decimal where
  digits : Nat
  exponent : Int
  deriving DecidableEq

namespace Decimal

def magnitude (d : Decimal) : Nat := Binary64.ofDecimal d.digits d.exponent

/-- The exponent of the greatest power of ten that a positive fraction reaches. -/
def floorLog10 (num den : Nat) : Int :=
  if den ≤ num then ((Nat.toDigits 10 (num / den)).length : Int) - 1
  else
    let k := (Nat.toDigits 10 (den / num)).length
    if den = num * Nat.pow 10 (k - 1) then -((k : Int) - 1) else -(k : Int)

/-- The nearer of two neighbouring grid points, for a value `rest / step` of the way from the
lower one to the upper one. -/
def nearer (tie : Tie) (lower upper : Decimal) (rest step : Nat) : Decimal :=
  if 2 * rest < step then lower
  else if step < 2 * rest then upper
  else if tie = .even ∧ lower.digits % 2 = 0 then lower
  else upper

/-- Of the two neighbours of the value `num / den` on the grid of step `10 ^ exponent`, the one
that reads back as the magnitude `m`, or the nearer one if both do. -/
def neighbour? (tie : Tie) (m num den : Nat) (exponent : Int) : Option Decimal :=
  let s := scale 10 num den (-exponent)
  let lower : Decimal := ⟨s.1 / s.2, exponent⟩
  let upper : Decimal := ⟨s.1 / s.2 + 1, exponent⟩
  if lower.magnitude = m then
    if upper.magnitude = m then some (nearer tie lower upper (s.1 % s.2) s.2) else some lower
  else if upper.magnitude = m then some upper
  else none

/-- The value of a magnitude written out in full. -/
def exact (m : Nat) : Decimal :=
  let p := Binary64.parts m
  if 0 ≤ p.2 then ⟨p.1 * Nat.pow 2 p.2.toNat, 0⟩ else ⟨p.1 * Nat.pow 5 (-p.2).toNat, p.2⟩

/-- The shortest decimal that reads back as a finite magnitude. Seventeen digits always do. -/
def shortest (tie : Tie) (m : Nat) : Decimal :=
  if m = 0 then ⟨0, 0⟩
  else
    let p := Binary64.parts m
    let v := scale 2 p.1 1 p.2
    let top := floorLog10 v.1 v.2
    let found := (List.range 17).findSome? fun (n : Nat) =>
      neighbour? tie m v.1 v.2 (top - (n : Int))
    found.getD (exact m)

end Decimal

end OpTree.Number
