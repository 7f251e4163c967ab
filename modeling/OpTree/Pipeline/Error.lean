import OpTree.Pipeline.Nesting

/-!
What can be wrong with a pipeline text: it does not parse, or it asks for a pass or an option
that does not exist, or for a value that an option cannot have.
-/

namespace OpTree.Pipeline

inductive Malformed
  | imbalance (kind : Imbalance) (text : String)
  | emptyEntry (text : String)
  /-- Something stands behind the options of an entry. -/
  | openEntry (entry : String)
  | invalidName (name : String)
  | namelessOption (option : String)
  deriving DecidableEq

def Malformed.message : Malformed → String
  | imbalance .unopened t => "unbalanced '\x7d' in '" ++ t ++ "'"
  | imbalance .unclosed t => "unterminated quote or brace in '" ++ t ++ "'"
  | emptyEntry t => "empty pass entry in '" ++ t ++ "'"
  | openEntry e => "expected '\x7d' at end of '" ++ e ++ "'"
  | invalidName n => "invalid pass name '" ++ n ++ "'"
  | namelessOption o => "option without a name: '" ++ o ++ "'"

/-- Why a pipeline cannot be built. -/
inductive Error
  | unknownPass (pass : String)
  | unknownOption (pass option : String)
  | invalidOptionValue (pass option value : String)
  | malformed (cause : Malformed)
  deriving DecidableEq

def Error.message : Error → String
  | unknownPass p => "Unknown pass: " ++ p
  | unknownOption p o => "Unknown option '" ++ o ++ "' for pass '" ++ p ++ "'"
  | invalidOptionValue p o v =>
    "Invalid value '" ++ v ++ "' for option '" ++ o ++ "' of pass '" ++ p ++ "'"
  | malformed c => "Malformed pass pipeline: " ++ c.message

end OpTree.Pipeline
