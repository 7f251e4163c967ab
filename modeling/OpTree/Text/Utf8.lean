/-!
Text as bytes, and what a viewer shows for bytes that need not be text: each maximal piece that
begins no well-formed sequence becomes one replacement character.
-/

namespace OpTree.Text

def bytesOf (s : String) : List UInt8 :=
  s.toList.flatMap String.utf8EncodeChar

/-- The string whose bytes these are, if they are well formed. -/
def ofBytes? (bs : List UInt8) : Option String :=
  String.fromUTF8? ⟨bs.toArray⟩

/-- How many continuation bytes follow a first byte, and between which bounds the first of them
lies; `none` for a byte that begins no sequence. -/
def sequenceShape? (b : UInt8) : Option (Nat × UInt8 × UInt8) :=
  if b < 0x80 then some (0, 0x80, 0xbf)
  else if 0xc2 ≤ b && b ≤ 0xdf then some (1, 0x80, 0xbf)
  else if b == 0xe0 then some (2, 0xa0, 0xbf)
  else if b == 0xed then some (2, 0x80, 0x9f)
  else if 0xe1 ≤ b && b ≤ 0xef then some (2, 0x80, 0xbf)
  else if b == 0xf0 then some (3, 0x90, 0xbf)
  else if b == 0xf4 then some (3, 0x80, 0x8f)
  else if 0xf1 ≤ b && b ≤ 0xf3 then some (3, 0x80, 0xbf)
  else none

/-- The continuation bytes at the front, at most `n` of them, the first between `lo` and `hi`. -/
def continuations (n : Nat) (lo hi : UInt8) (bs : List UInt8) : List UInt8 :=
  match n, bs with
  | n + 1, b :: r => if lo ≤ b && b ≤ hi then b :: continuations n 0x80 0xbf r else []
  | _, _ => []

/-- The character shown for bytes that are none. -/
def replacement : Char := '\ufffd'

def viewChars : List UInt8 → List Char
  | [] => []
  | b :: r =>
    match sequenceShape? b with
    | none => replacement :: viewChars r
    | some (n, lo, hi) =>
      let cs := continuations n lo hi r
      let shown :=
        if cs.length = n then ((ofBytes? (b :: cs)).map String.toList).getD [replacement]
        else [replacement]
      shown ++ viewChars (r.drop cs.length)
termination_by bs => bs.length

def showBytes (bs : List UInt8) : String := String.ofList (viewChars bs)

end OpTree.Text
