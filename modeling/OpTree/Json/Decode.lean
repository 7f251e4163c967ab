import OpTree.Json.Source
import OpTree.Text.Quoted

/-!
Reading values of a given form out of a JSON tree, in the order of the text, so that of two
faults the earlier one is reported.

Lists and objects nest to a limited depth. A reader that looks inside one gets a budget: the
number of levels that may still be opened. Values that are only skipped have no limit.
-/

namespace OpTree.Json

/-- The levels that a text may open. -/
def nestingBudget : Nat := 127

namespace Key

def read : Key → Except Fault String
  | name s => .ok s
  | unpaired f => .error f

end Key

namespace ListEnd

/-- What is wrong with the end of a list whose items are read one by one. -/
def fault? : ListEnd → Option Fault
  | closed | broken => none
  | cut => some (.endOfText .list)
  | cutAfterComma => some (.endOfText .value)
  | closedAfterComma => some .trailingComma
  | commaless => some .expectedListComma

/-- What is wrong with the end of a list behind its last expected item. -/
def tailFault? : ListEnd → Option Fault
  | closed | broken => none
  | cut => some (.endOfText .list)
  | closedAfterComma => some .trailingComma
  | cutAfterComma | commaless => some .trailingCharacters

/-- What is wrong with the end of a list that is skipped. -/
def skipFault? : ListEnd → Option Fault
  | closed | broken => none
  | cut => some (.endOfText .list)
  | cutAfterComma => some (.endOfText .value)
  | closedAfterComma => some .expectedValue
  | commaless => some .expectedListComma

end ListEnd

namespace ObjectEnd

/-- What is wrong with the end of an object whose members are read one by one. -/
def fault? : ObjectEnd → Option Fault
  | closed | broken => none
  | cut => some (.endOfText .object)
  | cutAfterComma => some (.endOfText .value)
  | closedAfterComma => some .trailingComma
  | commaless => some .expectedObjectComma
  | keyless => some .keyNotString
  | brokenKey read _ => some read
  | cutAfterKey (.unpaired f) | colonless (.unpaired f) => some f
  | cutAfterKey (.name _) => some (.endOfText .object)
  | colonless (.name _) => some .expectedColon

/-- What is wrong with the end of an object that is skipped. -/
def skipFault? : ObjectEnd → Option Fault
  | closed | broken => none
  | cut | cutAfterComma | cutAfterKey _ => some (.endOfText .object)
  | closedAfterComma | keyless => some .keyNotString
  | commaless => some .expectedObjectComma
  | brokenKey _ skip => some skip
  | colonless _ => some .expectedColon

def lastKey? : ObjectEnd → Option Key
  | cutAfterKey k | colonless k => some k
  | _ => none

end ObjectEnd

def Fault.check : Option Fault → Except Fault Unit
  | none => .ok ()
  | some f => .error f

namespace Source

mutual

/-- Passes over a value of any form and depth. -/
def skip : Source → Except Fault Unit
  | .leaf (.broken _ _ f) => .error f
  | .leaf _ => .ok ()
  | .list items ending => do
    skipItems items
    Fault.check ending.skipFault?
  | .object members ending => do
    skipMembers members
    Fault.check ending.skipFault?

def skipItems : List Source → Except Fault Unit
  | [] => .ok ()
  | s :: r => do
    skip s
    skipItems r

def skipMembers : List (Key × Source) → Except Fault Unit
  | [] => .ok ()
  | (_, s) :: r => do
    skip s
    skipMembers r

end

variable [FloatReader]

/-- The fault of finding this value where something else is expected. A malformed value is a
fault of its own. -/
def unexpected (expected : String) : Source → Fault
  | .leaf .null => .wrongKind "null" expected
  | .leaf (.bool b) => .wrongKind ("boolean " ++ Fault.ticked (toString b)) expected
  | .leaf (.number n) =>
    match n.number with
    | .ok v => .wrongKind v.describe expected
    | .error f => f
  | .leaf (.string s) => .wrongKind ("string " ++ Text.quote s) expected
  | .leaf (.unpaired f) => f
  | .leaf (.broken _ f _) => f
  | .list .. => .wrongKind "sequence" expected
  | .object .. => .wrongKind "map" expected

/-! ### Values without parts -/

def readUnit : Source → Except Fault Unit
  | .leaf .null => .ok ()
  | s => .error (s.unexpected "unit")

def readBool : Source → Except Fault Bool
  | .leaf (.bool b) => .ok b
  | s => .error (s.unexpected "a boolean")

def readText (expected : String) : Source → Except Fault String
  | .leaf (.string s) => .ok s
  | s => .error (s.unexpected expected)

def readString : Source → Except Fault String := readText "a string"

def readInt (range : String) (low high : Int) : Source → Except Fault Int
  | .leaf (.number n) =>
    match n.number with
    | .ok (.int v) =>
      if low ≤ v ∧ v ≤ high then .ok v
      else .error (.wrongValue (Number.int v).describe range)
    | .ok v => .error (.wrongKind v.describe range)
    | .error f => .error f
  | s => .error (s.unexpected range)

/-- Reads an unsigned integer of 32 bits. -/
def readUInt32 (s : Source) : Except Fault UInt32 :=
  (fun n => UInt32.ofNat n.toNat) <$> readInt "u32" 0 0xffffffff s

/-- Reads a signed integer of 64 bits. -/
def readInt64 (s : Source) : Except Fault Int64 :=
  Int64.ofInt <$> readInt "i64" (-0x8000000000000000) 0x7fffffffffffffff s

def readSize (s : Source) : Except Fault Nat :=
  Int.toNat <$> readInt "usize" 0 0xffffffffffffffff s

/-- Reads a number as floating point; integers are rounded. -/
def readFloat : Source → Except Fault OpTree.Number.Binary64
  | .leaf (.number n) => do
    match ← n.number with
    | .int v => .ok (.ofInt v)
    | .float x => .ok x
  | s => .error (s.unexpected "f64")

/-- Reads `null` as nothing. -/
def readOption {α : Type} (read : Source → Except Fault α) : Source → Except Fault (Option α)
  | .leaf .null => .ok none
  | s => some <$> read s

/-! ### Lists and objects -/

/-- A reader of the parts of a value, one level further down. -/
abbrev Below (budget : Nat) (α : Type) := (n : Nat) → n < budget → α

/-- The reader for the level below, if there is one. -/
def descend {α : Type} (budget : Nat) (f : Below budget (Except Fault α)) : Except Fault α :=
  match budget, f with
  | 0, _ => .error .nestingLimit
  | n + 1, f => f n (Nat.lt_succ_self n)

def readList {α : Type} (budget : Nat) (item : Below budget (Source → Except Fault α)) :
    Source → Except Fault (List α)
  | .list items ending => descend budget fun n h => do
    let vs ← items.mapM (item n h)
    Fault.check ending.fault?
    return vs
  | s => .error (s.unexpected "a sequence")

/-- Reads an object as pairs in the order of the text. -/
def readPairs {α : Type} (budget : Nat) (value : Below budget (Source → Except Fault α)) :
    Source → Except Fault (List (String × α))
  | .object members ending => descend budget fun n h => do
    let vs ← members.mapM fun m => do
      let k ← m.1.read
      let v ← value n h m.2
      return (k, v)
    Fault.check ending.fault?
    return vs
  | s => .error (s.unexpected "a map")

/-- One field of a record under construction. -/
structure Field (budget : Nat) (ρ : Type) where
  name : String
  required : Bool := true
  store : Below budget (Source → ρ → Except Fault ρ)

def field {budget : Nat} {α ρ : Type} (name : String)
    (read : Below budget (Source → Except Fault α)) (put : α → ρ → ρ) : Field budget ρ where
  name := name
  store := fun n h s r => (put · r) <$> read n h s

/-- A field that may be missing. -/
def optionalField {budget : Nat} {α ρ : Type} (name : String)
    (read : Below budget (Source → Except Fault α)) (put : α → ρ → ρ) : Field budget ρ :=
  { field name read put with required := false }

/-- Reads fields by position. Fields that are not required may be missing at the end. -/
def readPositions {budget : Nat} {ρ : Type} (n : Nat) (h : n < budget) (expected : String)
    (ending : ListEnd) : (seen : Nat) → List (Field budget ρ) → List Source → ρ → Except Fault ρ
  | _, [], [], r => do
    Fault.check ending.tailFault?
    return r
  | _, [], _ :: _, _ => .error .trailingCharacters
  | seen, f :: fs, [], r =>
    match ending.fault? with
    | some e => .error e
    | none =>
      if f.required then .error (.wrongLength seen expected)
      else readPositions n h expected ending (seen + 1) fs [] r
  | seen, f :: fs, s :: ss, r => do
    let r ← f.store n h s r
    readPositions n h expected ending (seen + 1) fs ss r

/-- Whether a key may come next, given the fields that came before. -/
def checkKey {budget : Nat} {ρ : Type} (fields : List (Field budget ρ)) (seen : List String)
    (k : String) : Except Fault (Option (Field budget ρ)) :=
  match fields.find? (·.name == k) with
  | none => .ok none
  | some f => if k ∈ seen then .error (.duplicateField k) else .ok (some f)

/-- Reads fields by name. Members of other names are skipped. -/
def readMembers {budget : Nat} {ρ : Type} (n : Nat) (h : n < budget)
    (fields : List (Field budget ρ)) (ending : ObjectEnd) :
    (seen : List String) → List (Key × Source) → ρ → Except Fault ρ
  | seen, [], r => do
    if let some (.name k) := ending.lastKey? then
      let _ ← checkKey fields seen k
    Fault.check ending.fault?
    match fields.find? fun f => f.required && !seen.contains f.name with
    | some f => .error (.missingField f.name)
    | none => return r
  | seen, (k, s) :: ms, r => do
    let k ← k.read
    match ← checkKey fields seen k with
    | none =>
      skip s
      readMembers n h fields ending seen ms r
    | some f =>
      let r ← f.store n h s r
      readMembers n h fields ending (k :: seen) ms r

/-- "with 2 elements". -/
def withElements (what : String) (n : Nat) : String :=
  what ++ " with " ++ toString n ++ (if n = 1 then " element" else " elements")

/-- Reads the list of the fields in their order. -/
def readTuple {ρ : Type} (budget : Nat) (what : String) (fields : List (Field budget ρ))
    (init : ρ) : Source → Except Fault ρ
  | .list items ending => descend budget fun n h =>
    readPositions n h (withElements what fields.length) ending 0 fields items init
  | s => .error (s.unexpected what)

/-- Reads a record: an object of the fields by name, or the list of them in their order. -/
def readRecord {ρ : Type} (budget : Nat) (what : String) (fields : List (Field budget ρ))
    (init : ρ) : Source → Except Fault ρ
  | .object members ending => descend budget fun n h =>
    readMembers n h fields ending [] members init
  | s => readTuple budget what fields init s

/-! ### Variants -/

/-- What a variant carries. -/
inductive Payload
  | value
  | tuple
  | record
  deriving DecidableEq

/-- The fault of a variant that stands alone and should carry something. -/
def Payload.alone : Payload → Fault
  | value => .wrongKind "unit variant" "newtype variant"
  | tuple => .wrongKind "unit variant" "tuple variant"
  | record => .wrongKind "unit variant" "struct variant"

/-- One form of a value with several forms. -/
structure Variant (budget : Nat) (α : Type) where
  name : String
  /-- The value of a variant without payload, or the kind of payload. -/
  alone : Except Payload α
  read : Below budget (Source → Except Fault α)

def Variant.plain {budget : Nat} {α : Type} (name : String) (v : α) : Variant budget α where
  name := name
  alone := .ok v
  read := fun _ _ s => (fun _ => v) <$> s.readUnit

/-- A variant whose payload is one value. -/
def Variant.holding {budget : Nat} {α β : Type} (name : String) (make : α → β)
    (read : Below budget (Source → Except Fault α)) : Variant budget β where
  name := name
  alone := .error .value
  read := fun n h s => make <$> read n h s

def Variant.carrying {budget : Nat} {β : Type} (name : String) (kind : Payload)
    (read : Below budget (Source → Except Fault β)) : Variant budget β where
  name := name
  alone := .error kind
  read := read

def findVariant {budget : Nat} {α : Type} (variants : List (Variant budget α)) (name : String) :
    Except Fault (Variant budget α) :=
  match variants.find? (·.name == name) with
  | some v => .ok v
  | none => .error (.unknownVariant name (variants.map (·.name)))

/-- Reads one of several forms: the name of a variant, or an object with the name as its only
key and the payload as its value. -/
def readVariant {α : Type} (budget : Nat) (variants : List (Variant budget α)) :
    Source → Except Fault α
  | .leaf (.string name) => do
    let v ← findVariant variants name
    match v.alone with
    | .ok a => .ok a
    | .error p => .error p.alone
  | .leaf (.unpaired f) => .error f
  | .leaf (.broken .nothing f _) => .error f
  | .leaf (.broken .quote f _) => .error f
  | .leaf _ => .error .expectedValue
  | .list .. => .error .expectedValue
  | .object [] ending => descend budget fun _ _ => do
    if let some (.name k) := ending.lastKey? then
      let _ ← findVariant variants k
    .error (ending.fault?.getD .expectedValue)
  | .object ((k, s) :: more) ending => descend budget fun n h => do
    let v ← findVariant variants (← k.read)
    let a ← v.read n h s
    match more, ending with
    | [], .closed | [], .broken => .ok a
    | [], .cut => .error (.endOfText .object)
    | _, _ => .error .expectedValue

end Source

def decode {α : Type} (read : Source → Except Fault α) (text : String) : Except Fault α := do
  let (s, rest) := Source.ofText text
  let a ← read s
  if rest.isEmpty then .ok a else .error .trailingCharacters

end OpTree.Json
