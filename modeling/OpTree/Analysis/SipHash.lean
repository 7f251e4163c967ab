/-!
SipHash with one round per word and three rounds at the end, under the zero key.
-/

namespace OpTree.Analysis.SipHash

/-- The four words of the state. -/
structure State where
  v0 : UInt64
  v1 : UInt64
  v2 : UInt64
  v3 : UInt64

/-- The state before the first word. -/
def State.start : State :=
  ⟨0x736f6d6570736575, 0x646f72616e646f6d, 0x6c7967656e657261, 0x7465646279746573⟩

def rotate (x k : UInt64) : UInt64 := (x <<< k) ||| (x >>> (64 - k))

namespace State

def round (s : State) : State :=
  let a := s.v0 + s.v1
  let b := rotate s.v1 13 ^^^ a
  let a := rotate a 32
  let c := s.v2 + s.v3
  let d := rotate s.v3 16 ^^^ c
  let a := a + d
  let d := rotate d 21 ^^^ a
  let c := c + b
  let b := rotate b 17 ^^^ c
  let c := rotate c 32
  ⟨a, b, c, d⟩

def absorb (s : State) (m : UInt64) : State :=
  let t := { s with v3 := s.v3 ^^^ m }.round
  { t with v0 := t.v0 ^^^ m }

def finish (s : State) : UInt64 :=
  let t := { s with v2 := s.v2 ^^^ 0xff }.round.round.round
  t.v0 ^^^ t.v1 ^^^ t.v2 ^^^ t.v3

end State

/-- The word with the given bytes, the lowest first. -/
def wordOf (bs : List UInt8) : UInt64 :=
  bs.foldr (fun b w => (w <<< 8) ||| b.toUInt64) 0

/-- Takes in bytes, eight at a time; the last word carries the length in its top byte. -/
def absorbBytes (length : Nat) (s : State) : List UInt8 → State
  | b0 :: b1 :: b2 :: b3 :: b4 :: b5 :: b6 :: b7 :: r =>
    absorbBytes length (s.absorb (wordOf [b0, b1, b2, b3, b4, b5, b6, b7])) r
  | r => s.absorb ((UInt64.ofNat length <<< 56) ||| wordOf r)

def hash (bs : List UInt8) : UInt64 := (absorbBytes bs.length .start bs).finish

end OpTree.Analysis.SipHash
