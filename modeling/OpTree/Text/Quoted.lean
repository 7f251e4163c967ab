import OpTree.Text.Extender
import OpTree.Text.Unprintable

/-!
Quoted text: a literal between double quotes in which the quote, the backslash and every
character that would be unreadable on its own are escaped, so that it stays on one line.
-/

namespace OpTree.Text

/-- What stands for a character inside the quotes: a short escape where there is one, the
character itself where it can be read, else its code point in hexadecimal. -/
def escapeChar (c : Char) : List Char :=
  match c with
  | '\x00' => ['\\', '0']
  | '\t' => ['\\', 't']
  | '\r' => ['\\', 'r']
  | '\n' => ['\\', 'n']
  | '\\' => ['\\', '\\']
  | '"' => ['\\', '"']
  | c =>
    if 0x20 ≤ c.toNat && c.toNat ≤ 0x7e then [c]
    else if isExtender c || isUnprintable c then
      ['\\', 'u', '{'] ++ Nat.toDigits 16 c.toNat ++ ['}']
    else [c]

def quoteChars (s : List Char) : List Char :=
  '"' :: (s.flatMap escapeChar ++ ['"'])

def quote (s : String) : String :=
  String.ofList (quoteChars s.toList)

end OpTree.Text
