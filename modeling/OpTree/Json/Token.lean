import OpTree.Json.Numeral

/-!
The tokens of a JSON text. Lexing never fails: a word, number or string that is malformed is a
token too, which carries its fault, and nothing is read behind it.

A fault is kept twice, because a value that is read and a value that is only skipped are held
to different rules: lone surrogates matter only where the string is read, and a number that
breaks off is a text that ended for one and a malformed number for the other.
-/

namespace OpTree.Json

/-- How a malformed value begins. -/
inductive Start
  | nothing
  | quote
  | other
  deriving DecidableEq

/-- A value without parts, sound or malformed. -/
inductive Leaf
  | null
  | bool (b : Bool)
  | number (n : Numeral)
  | string (s : String)
  /-- A string with a lone surrogate, sound unless it is read. -/
  | unpaired (read : Fault)
  /-- A value at which reading ends: its fault when read, and when skipped. -/
  | broken (start : Start) (read skip : Fault)
  deriving DecidableEq

inductive Token
  | openList
  | closeList
  | openObject
  | closeObject
  | comma
  | colon
  | leaf (l : Leaf)
  deriving DecidableEq

def isSpace (c : Char) : Bool := c == ' ' || c == '\n' || c == '\t' || c == '\r'

/-! ### Strings -/

def hexDigit? (c : Char) : Option Nat :=
  if '0' ≤ c ∧ c ≤ '9' then some (c.toNat - '0'.toNat)
  else if 'a' ≤ c ∧ c ≤ 'f' then some (c.toNat - 'a'.toNat + 10)
  else if 'A' ≤ c ∧ c ≤ 'F' then some (c.toNat - 'A'.toNat + 10)
  else none

/-- The value of four hexadecimal digits. -/
def hexValue? (a b c d : Char) : Option Nat :=
  match hexDigit? a, hexDigit? b, hexDigit? c, hexDigit? d with
  | some a, some b, some c, some d => some (4096 * a + 256 * b + 16 * c + d)
  | _, _, _, _ => none

/-- What is wrong where four hexadecimal digits are due and do not stand: fewer than four bytes
are left, or they are something else. -/
def hexFault (rest : List Char) : Fault :=
  if (rest.take 4).foldl (fun n c => n + c.utf8Size) 0 < 4 then .endOfText .string
  else .invalidEscape

/-- The character that a one-letter escape stands for. -/
def shortEscape? : Char → Option Char
  | '"' => some '"'
  | '\\' => some '\\'
  | '/' => some '/'
  | 'b' => some '\x08'
  | 'f' => some '\x0c'
  | 'n' => some '\n'
  | 'r' => some '\r'
  | 't' => some '\t'
  | _ => none

/-- The rest behind the closing quote of a string that is only skipped. -/
def skipString : List Char → Except Fault (List Char)
  | [] => .error (.endOfText .string)
  | '"' :: r => .ok r
  | '\\' :: 'u' :: a :: b :: c :: d :: r =>
    match hexValue? a b c d with
    | some _ => skipString r
    | none => .error (hexFault (a :: b :: c :: d :: r))
  | '\\' :: 'u' :: r => .error (hexFault r)
  | ['\\'] => .error (.endOfText .string)
  | '\\' :: e :: r =>
    match shortEscape? e with
    | some _ => skipString r
    | none => .error .invalidEscape
  | c :: r => if c.toNat < 0x20 then .error .controlCharacter else skipString r

/-- A string and the text behind it, or the leaf it is instead and the text behind that. -/
structure StringScan where
  chars : List Char
  fault : Option Leaf
  rest : List Char

namespace StringScan

def close (rest : List Char) : StringScan := ⟨[], none, rest⟩

def stop (f : Fault) : StringScan := ⟨[], some (.broken .quote f f), []⟩

/-- The string cannot be read from `rest` on, but perhaps skipped. -/
def spoil (f : Fault) (rest : List Char) : StringScan :=
  match skipString rest with
  | .ok r => ⟨[], some (.unpaired f), r⟩
  | .error e => ⟨[], some (.broken .quote f e), []⟩

/-- A character more in front. -/
def cons (c : Char) (s : StringScan) : StringScan := { s with chars := c :: s.chars }

end StringScan

/-- A character of the surrogate half that comes first. -/
def isLeading (n : Nat) : Bool := 0xd800 ≤ n && n ≤ 0xdbff

/-- A character of the surrogate half that comes second. -/
def isTrailing (n : Nat) : Bool := 0xdc00 ≤ n && n ≤ 0xdfff

/-- The character of a surrogate pair. -/
def pairChar (hi lo : Nat) : Char := Char.ofNat (0x10000 + 1024 * (hi - 0xd800) + (lo - 0xdc00))

/-- Reads a string from behind its opening quote. -/
def scanString : List Char → StringScan
  | [] => .stop (.endOfText .string)
  | '"' :: r => .close r
  | '\\' :: 'u' :: a :: b :: c :: d :: r =>
    match hexValue? a b c d with
    | none => .stop (hexFault (a :: b :: c :: d :: r))
    | some n =>
      if isTrailing n then .spoil .loneSurrogate r
      else if isLeading n then
        match r with
        | '\\' :: 'u' :: e :: f :: g :: h :: r' =>
          match hexValue? e f g h with
          | none => .stop (hexFault (e :: f :: g :: h :: r'))
          | some m =>
            if isTrailing m then (scanString r').cons (pairChar n m)
            else .spoil .loneSurrogate r
        | '\\' :: 'u' :: r' => .stop (hexFault r')
        | [] | ['\\'] => .stop (.endOfText .string)
        | _ => .spoil .unfinishedSurrogate r
      else (scanString r).cons (Char.ofNat n)
  | '\\' :: 'u' :: r => .stop (hexFault r)
  | ['\\'] => .stop (.endOfText .string)
  | '\\' :: e :: r =>
    match shortEscape? e with
    | some c => (scanString r).cons c
    | none => .stop .invalidEscape
  | c :: r => if c.toNat < 0x20 then .stop .controlCharacter else (scanString r).cons c

/-! ### Numbers -/

/-- The digits at the front, and the text behind them. -/
def spanDigits (s : List Char) : List Char × List Char :=
  (s.takeWhile Char.isDigit, s.dropWhile Char.isDigit)

/-- A numeral that lacks a digit where `rest` begins. -/
def digitDue (rest : List Char) : Leaf :=
  .broken .other (if rest = [] then .endOfText .value else .invalidNumber) .invalidNumber

/-- Reads the exponent of a numeral, if one begins here. -/
def scanExponent (n : Numeral) : List Char → Leaf × List Char
  | e :: r =>
    if e == 'e' || e == 'E' then
      let signed := match r with
        | '-' :: r' => (true, r')
        | '+' :: r' => (false, r')
        | _ => (false, r)
      let digits := spanDigits signed.2
      if digits.1 = [] then (digitDue signed.2, [])
      else
        let v : Int := Text.digitsValue digits.1
        (.number { n with exponent := some (if signed.1 then -v else v) }, digits.2)
    else (.number n, e :: r)
  | [] => (.number n, [])

/-- Reads a numeral from behind its sign. -/
def scanNumber (negative : Bool) (s : List Char) : Leaf × List Char :=
  let whole := spanDigits s
  match whole.1 with
  | [] => (digitDue s, [])
  | '0' :: _ :: _ => (.broken .other .invalidNumber .invalidNumber, [])
  | ds =>
    match whole.2 with
    | '.' :: r =>
      let fraction := spanDigits r
      if fraction.1 = [] then (digitDue r, [])
      else scanExponent { negative, whole := ds, fraction := fraction.1 } fraction.2
    | r => scanExponent { negative, whole := ds } r

/-! ### Words and tokens -/

/-- Reads the rest of a word that stands for `l`. -/
def scanWord (l : Leaf) : List Char → List Char → Leaf × List Char
  | [], s => (l, s)
  | _ :: _, [] => (.broken .other (.endOfText .value) (.endOfText .value), [])
  | w :: ws, c :: s =>
    if w = c then scanWord l ws s else (.broken .other .expectedWord .expectedWord, [])

/-- The first token of a text that does not begin with white space, and the text behind it. -/
def nextToken (c : Char) (r : List Char) : Token × List Char :=
  match c with
  | '[' => (.openList, r)
  | ']' => (.closeList, r)
  | '{' => (.openObject, r)
  | '}' => (.closeObject, r)
  | ',' => (.comma, r)
  | ':' => (.colon, r)
  | '"' =>
    let s := scanString r
    (.leaf (s.fault.getD (.string (String.ofList s.chars))), s.rest)
  | 'n' => (scanWord .null ['u', 'l', 'l'] r).map .leaf id
  | 't' => (scanWord (.bool true) ['r', 'u', 'e'] r).map .leaf id
  | 'f' => (scanWord (.bool false) ['a', 'l', 's', 'e'] r).map .leaf id
  | '-' => (scanNumber true r).map .leaf id
  | c =>
    if c.isDigit then (scanNumber false (c :: r)).map .leaf id
    else (.leaf (.broken .other .expectedValue .expectedValue), [])

end OpTree.Json
