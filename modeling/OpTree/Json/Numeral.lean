import OpTree.Json.Fault
import OpTree.Number.Layout
import OpTree.Number.Scaling
import OpTree.Text.Size

/-!
JSON numbers: the digits as they are written, and the number they stand for. A numeral without
fraction and exponent is an integer as long as it fits in 64 bits; everything else is a floating
point number, and a `FloatReader` says which.
-/

namespace OpTree.Json

open OpTree.Number

/-- A numeral: sign, digits before and after the point, and the exponent if there is one. -/
structure Numeral where
  negative : Bool := false
  whole : List Char
  fraction : List Char := []
  exponent : Option Int := none
  deriving DecidableEq

/-- The number that a numeral stands for. -/
inductive Number
  | int (n : Int)
  | float (x : Binary64)
  deriving DecidableEq

/-- Floating point numbers in JSON are positional from a hundred thousandth up to sixteen
digits before the point, exponents carry their sign, and ties go to the even digit. -/
def numberLayout : Layout where
  plainFrom := -5
  plainTo := 15
  plusSign := true
  tie := .even

/-- How the floating point number of a numeral is found. It is a finite one, but it need not be the
nearest one. -/
class FloatReader where
  read : Numeral → Except Fault Binary64
  isFinite_of_read {n : Numeral} {x : Binary64} : read n = .ok x → x.isFinite = true

namespace Numeral

/-- Takes digits into an integer as long as it stays below `2 ^ 64`; gives the integer and the
count of the digits that are left over. -/
def takeDigits (taken : Nat) : List Char → Nat × Nat
  | [] => (taken, 0)
  | d :: ds =>
    let next := Text.digitsValue [d] + 10 * taken
    if next < Text.sizeLimit then takeDigits next ds else (taken, ds.length + 1)

/-- The magnitude of a numeral: the first digits as an integer, scaled by the power of ten at
which they stand. -/
def quickMagnitude (n : Numeral) : Nat :=
  let whole := takeDigits 0 n.whole
  let all := takeDigits whole.1 n.fraction
  Binary64.timesTen (Binary64.ofDecimal all.1 0)
    (n.exponent.getD 0 + whole.2 + all.2 - n.fraction.length)

/-- A magnitude with the sign of a numeral; one beyond the finite range is a fault. -/
def signed (n : Numeral) (m : Nat) : Except Fault Binary64 :=
  if m < Binary64.infinityMagnitude then .ok (.ofMagnitude n.negative m)
  else .error .numberOutOfRange

theorem isFinite_of_signed {n : Numeral} {m : Nat} {x : Binary64} (h : n.signed m = .ok x) :
    x.isFinite = true := by
  unfold signed at h
  split at h
  · rename_i hfin
    cases h
    exact Binary64.isFinite_ofMagnitude _ hfin
  · cases h

end Numeral

/-- The reader that runs. It is quick rather than exact: what it finds for a long numeral can be
a neighbour of the nearest number. -/
instance FloatReader.quick : FloatReader where
  read n := n.signed n.quickMagnitude
  isFinite_of_read := Numeral.isFinite_of_signed

namespace Numeral

def float [FloatReader] (n : Numeral) : Except Fault Number := .float <$> FloatReader.read n

/-- The least signed integer of 64 bits, without its sign. -/
def signedLimit : Nat := 0x8000000000000000

/-- The number of a numeral. The integer zero has no sign, so `-0` is a floating point number. -/
def number [FloatReader] (n : Numeral) : Except Fault Number :=
  let v := Text.digitsValue n.whole
  if n.fraction = [] ∧ n.exponent = none then
    if n.negative then
      if 0 < v ∧ v ≤ signedLimit then .ok (.int (-v)) else n.float
    else if v < Text.sizeLimit then .ok (.int v)
    else n.float
  else n.float

end Numeral

namespace Number

def describe : Number → String
  | int n => "integer " ++ Fault.ticked (toString n)
  | float x => "floating point " ++ Fault.ticked (numberLayout.text x)

end Number

end OpTree.Json
