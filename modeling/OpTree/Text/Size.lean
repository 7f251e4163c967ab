/-!
The decimal notation of sizes: an optional plus sign and at least one ASCII digit, for a value
below `2 ^ 64`.
-/

namespace OpTree.Text

def digitsValue (ds : List Char) : Nat :=
  ds.foldl (fun n d => 10 * n + (d.toNat - '0'.toNat)) 0

/-- Sizes are smaller than `2 ^ 64`. -/
def sizeLimit : Nat := 0x10000000000000000

/-- Reads a size; `none` for any other text. -/
def parseSize? (s : String) : Option Nat :=
  let ds := match s.toList with
    | '+' :: r => r
    | cs => cs
  if ds ≠ [] ∧ ds.all Char.isDigit ∧ digitsValue ds < sizeLimit then some (digitsValue ds)
  else none

end OpTree.Text
