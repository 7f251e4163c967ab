/-!
What can be wrong with a JSON text, for a reader that wants a value of a given form. Faults of
the notation and faults of the content are told apart by their category.
-/

namespace OpTree.Json

/-- Where a text broke off. -/
inductive Within
  | list
  | object
  | string
  | value
  deriving DecidableEq

/-- The reason why a text could not be read. -/
inductive Fault
  | endOfText (within : Within)
  | expectedColon
  | expectedListComma
  | expectedObjectComma
  | expectedWord
  | expectedValue
  | invalidEscape
  | invalidNumber
  | numberOutOfRange
  | controlCharacter
  | keyNotString
  | loneSurrogate
  | unfinishedSurrogate
  | trailingComma
  | trailingCharacters
  | nestingLimit
  | wrongKind (found expected : String)
  | wrongValue (found expected : String)
  | wrongLength (length : Nat) (expected : String)
  | unknownVariant (name : String) (known : List String)
  | missingField (name : String)
  | duplicateField (name : String)
  deriving DecidableEq

/-- The kind of a fault: the notation is broken, the content does not fit, or the text ended. -/
inductive Category
  | malformed
  | content
  | ending
  deriving DecidableEq

namespace Fault

def category : Fault → Category
  | endOfText _ => .ending
  | wrongKind .. | wrongValue .. | wrongLength .. | unknownVariant .. | missingField _
  | duplicateField _ => .content
  | _ => .malformed

/-- A name between grave accents. -/
def ticked (s : String) : String := "`" ++ s ++ "`"

/-- The choice among names, in words. -/
def choice : List String → String
  | [] => "there are no variants"
  | [a] => "expected " ++ ticked a
  | [a, b] => "expected " ++ ticked a ++ " or " ++ ticked b
  | l => "expected one of " ++ ", ".intercalate (l.map ticked)

def message : Fault → String
  | endOfText .list => "EOF while parsing a list"
  | endOfText .object => "EOF while parsing an object"
  | endOfText .string => "EOF while parsing a string"
  | endOfText .value => "EOF while parsing a value"
  | expectedColon => "expected `:`"
  | expectedListComma => "expected `,` or `]`"
  | expectedObjectComma => "expected `,` or `\x7d`"
  | expectedWord => "expected ident"
  | expectedValue => "expected value"
  | invalidEscape => "invalid escape"
  | invalidNumber => "invalid number"
  | numberOutOfRange => "number out of range"
  | controlCharacter => "control character (\\u0000-\\u001F) found while parsing a string"
  | keyNotString => "key must be a string"
  | loneSurrogate => "lone leading surrogate in hex escape"
  | unfinishedSurrogate => "unexpected end of hex escape"
  | trailingComma => "trailing comma"
  | trailingCharacters => "trailing characters"
  | nestingLimit => "recursion limit exceeded"
  | wrongKind found expected => "invalid type: " ++ found ++ ", expected " ++ expected
  | wrongValue found expected => "invalid value: " ++ found ++ ", expected " ++ expected
  | wrongLength n expected => "invalid length " ++ toString n ++ ", expected " ++ expected
  | unknownVariant name known => "unknown variant " ++ ticked name ++ ", " ++ choice known
  | missingField name => "missing field " ++ ticked name
  | duplicateField name => "duplicate field " ++ ticked name

end Fault

end OpTree.Json
