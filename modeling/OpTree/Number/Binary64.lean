/-!
Binary floating point numbers of 64 bits, as words. The value of a finite word is
`m * 2 ^ q` for the pair `(m, q)` that `parts` gives, up to its sign.
-/

namespace OpTree.Number

/-- A floating point word: sign, eleven bits of exponent, 52 bits of fraction. Two words are
equal when their bits are. -/
structure Binary64 where
  bits : UInt64
  deriving DecidableEq, Inhabited

namespace Binary64

/-- The weight of the sign bit, `2 ^ 63`. -/
def signWeight : Nat := 0x8000000000000000

/-- The weight of the lowest bit of the exponent, `2 ^ 52`. -/
def exponentWeight : Nat := 0x10000000000000

/-- The word without its sign bit. -/
def magnitude (x : Binary64) : Nat := x.bits.toNat % signWeight

def isNegative (x : Binary64) : Bool := signWeight ≤ x.bits.toNat

/-- The magnitude of infinity; larger magnitudes are not numbers. -/
def infinityMagnitude : Nat := 0x7ff * exponentWeight

def isFinite (x : Binary64) : Bool := x.magnitude < infinityMagnitude

def isNaN (x : Binary64) : Bool := infinityMagnitude < x.magnitude

def isZero (x : Binary64) : Bool := x.magnitude = 0

def ofMagnitude (negative : Bool) (m : Nat) : Binary64 :=
  ⟨UInt64.ofNat (if negative then signWeight + m else m)⟩

theorem magnitude_ofMagnitude {m : Nat} (negative : Bool) (hm : m < signWeight) :
    (ofMagnitude negative m).magnitude = m := by
  unfold ofMagnitude magnitude
  rw [UInt64.toNat_ofNat']
  unfold signWeight at *
  cases negative <;> simp <;> omega

theorem isFinite_ofMagnitude {m : Nat} (negative : Bool) (hm : m < infinityMagnitude) :
    (ofMagnitude negative m).isFinite = true := by
  have hsign : infinityMagnitude < signWeight := by decide
  rw [isFinite, magnitude_ofMagnitude negative (by omega)]
  exact decide_eq_true hm

/-- The integer `m` and the exponent `q` with value `m * 2 ^ q`, for a finite magnitude. -/
def parts (magnitude : Nat) : Nat × Int :=
  let e : Nat := magnitude / exponentWeight
  let f := magnitude % exponentWeight
  if e = 0 then (f, -1074) else (exponentWeight + f, (e : Int) - 1075)

/-- Comparison as numbers: the two zeros are the same, and what is no number differs from
everything, itself included. -/
def sameValue (x y : Binary64) : Bool :=
  !x.isNaN && !y.isNaN && (x == y || (x.isZero && y.isZero))

end Binary64

end OpTree.Number
