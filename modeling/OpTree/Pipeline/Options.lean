import OpTree.Pipeline.Error
import OpTree.Text.Size

/-!
The options of one entry, taken out one by one by whoever builds the pass. What is left at the
end is unknown.
-/

namespace OpTree.Pipeline

/-- The options of a pass that were not asked for yet. -/
structure PassOptions where
  pass : String
  entries : List (String × String)

/-- The truth values as they are written. -/
def parseBool? : String → Option Bool
  | "true" => some true
  | "1" => some true
  | "false" => some false
  | "0" => some false
  | _ => none

namespace PassOptions

/-- Takes out all values of a key; the last one counts. -/
def take (o : PassOptions) (key : String) : Option String × PassOptions :=
  (((o.entries.filter (·.1 == key)).map Prod.snd).getLast?,
    { o with entries := o.entries.filter (·.1 != key) })

/-- Takes out a key whose value has to be readable. -/
def takeAs {α : Type} (parse? : String → Option α) (o : PassOptions) (key : String) :
    Except Error (Option α) × PassOptions :=
  let (value, o) := o.take key
  let read := match value with
    | none => .ok none
    | some v =>
      match parse? v with
      | some a => .ok (some a)
      | none => .error (.invalidOptionValue o.pass key v)
  (read, o)

/-- Takes out a truth value. -/
def takeBool (o : PassOptions) (key : String) : Except Error (Option Bool) × PassOptions :=
  o.takeAs parseBool? key

def takeSize (o : PassOptions) (key : String) : Except Error (Option Nat) × PassOptions :=
  o.takeAs Text.parseSize? key

def finish (o : PassOptions) : Except Error Unit :=
  match o.entries with
  | [] => .ok ()
  | e :: _ => .error (.unknownOption o.pass e.1)

end PassOptions

end OpTree.Pipeline
