/-!
White space in the sense of Unicode's `White_Space` property, and trimming by it.
-/

namespace OpTree.Text

/-- The character has the property `White_Space`. -/
def isBlank (c : Char) : Bool :=
  let n := c.toNat
  (0x9 ≤ n && n ≤ 0xd) || n == 0x20 || n == 0x85 || n == 0xa0 || n == 0x1680 ||
    (0x2000 ≤ n && n ≤ 0x200a) || n == 0x2028 || n == 0x2029 || n == 0x202f || n == 0x205f ||
    n == 0x3000

/-- The text without the blanks at its two ends. -/
def trim (s : List Char) : List Char :=
  ((s.dropWhile isBlank).reverse.dropWhile isBlank).reverse

/-- The text holds nothing but blanks. -/
def isBlankText (s : List Char) : Bool :=
  s.all isBlank

end OpTree.Text
