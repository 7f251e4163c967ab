import OpTree.Number.Shortest

/-!
The text of floating point numbers: which shortest decimal is taken and how its digits are laid
out. A `Layout` holds the decisions of one output format.
-/

namespace OpTree.Number

/-- How a format writes numbers. -/
structure Layout where
  /-- The least exponent of the leading digit that is written positionally. -/
  plainFrom : Int
  /-- The greatest exponent of the leading digit that is written positionally. -/
  plainTo : Int
  /-- Exponents from zero on carry a plus sign. -/
  plusSign : Bool
  tie : Tie

namespace Layout

/-- A decimal with digits `ds`, the leading one at exponent `top`, in positional notation. -/
def plain (ds : List Char) (top : Int) : List Char :=
  if top < 0 then ['0', '.'] ++ List.replicate ((-top).toNat - 1) '0' ++ ds
  else
    let n := top.toNat + 1
    let whole := ds.take n ++ List.replicate (n - ds.length) '0'
    let fraction := ds.drop n
    whole ++ ['.'] ++ (if fraction = [] then ['0'] else fraction)

def scientific (plusSign : Bool) (ds : List Char) (top : Int) : List Char :=
  let fraction := ds.drop 1
  ds.take 1 ++ (if fraction = [] then [] else '.' :: fraction) ++ ['e'] ++
    (if 0 ≤ top && plusSign then ['+'] else []) ++ (toString top).toList

def magnitudeText (l : Layout) (m : Nat) : List Char :=
  if m = 0 then ['0', '.', '0']
  else
    let d := Decimal.shortest l.tie m
    let all := Nat.toDigits 10 d.digits
    let top := (all.length : Int) - 1 + d.exponent
    let ds := (all.reverse.dropWhile (· == '0')).reverse
    if l.plainFrom ≤ top && top ≤ l.plainTo then plain ds top else scientific l.plusSign ds top

/-- The text of a number; infinities and what is no number are spelt out. -/
def text (l : Layout) (x : Binary64) : String :=
  if x.isNaN then "NaN"
  else
    let body := if x.isFinite then l.magnitudeText x.magnitude else ['i', 'n', 'f']
    String.ofList (if x.isNegative then '-' :: body else body)

end Layout

end OpTree.Number
