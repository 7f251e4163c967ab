/-!
Command lines: which switches exist and what they take, and the scan of the arguments one by one.

A switch is written `--name`, or `-c` for some character; short ones may share a dash. A value
follows as the next argument, or behind an equals sign, or directly behind a short switch. What
begins with a dash is no value by itself, and everything behind `--` is positional.
-/

namespace OpTree.Command

inductive Effect
  /-- It is on or off, and given at most once. -/
  | toggle
  /-- It may be given any number of times. -/
  | counter
  /-- It takes a value of a certain form, once. -/
  | value (accepts : String → Bool)
  | help
  | version

structure Switch where
  name : String
  short : Option Char := none
  effect : Effect

/-- What a command line may consist of. -/
structure Grammar where
  switches : List Switch
  /-- How many positional arguments there may be. -/
  positionals : Nat := 0
  /-- The subcommands; the arguments behind one are its own. -/
  subcommands : List String := []

/-- Why the arguments do not lead to a command. -/
inductive Stop
  | usage
  | help
  | version
  deriving DecidableEq

structure Found where
  /-- The switches given, with their values, the latest first. -/
  given : List (String × String) := []
  /-- The positional arguments, the latest first. -/
  positionals : List String := []
  /-- The subcommand, with the arguments behind it. -/
  subcommand : Option (String × List String) := none

namespace Found

/-- How often a switch was given. -/
def count (f : Found) (name : String) : Nat := f.given.countP (·.1 == name)

def has (f : Found) (name : String) : Bool := f.given.any (·.1 == name)

def value? (f : Found) (name : String) : Option String :=
  (f.given.find? (·.1 == name)).map Prod.snd

end Found

inductive Mode
  | open
  /-- A switch waits for its value. -/
  | awaiting (s : Switch)
  /-- Everything that comes is positional. -/
  | literal

namespace Grammar

variable (g : Grammar)

/-- Takes in a switch, with what it was given as its value. -/
def takeSwitch (f : Found) (s : Switch) (v : String) : Except Stop Found :=
  let f' := { f with given := (s.name, v) :: f.given }
  match s.effect with
  | .help => .error .help
  | .version => .error .version
  | .counter => .ok f'
  | .toggle => if f.has s.name then .error .usage else .ok f'
  | .value accepts => if f.has s.name || !accepts v then .error .usage else .ok f'

/-- Takes in a positional argument, which must not be empty. -/
def takePositional (f : Found) (a : String) : Except Stop Found :=
  if f.positionals.length < g.positionals ∧ a ≠ "" then
    .ok { f with positionals := a :: f.positionals }
  else .error .usage

/-- The value behind a short switch, without an equals sign in front. -/
def attached : List Char → List Char
  | '=' :: r => r
  | r => r

/-- Takes in the switches that share a dash. -/
def takeShort (f : Found) : List Char → Except Stop (Found × Mode)
  | [] => .ok (f, .open)
  | c :: r =>
    match g.switches.find? (·.short == some c) with
    | none => .error .usage
    | some s =>
      match s.effect with
      | .value _ =>
        if r = [] then .ok (f, .awaiting s)
        else (·, .open) <$> takeSwitch f s (.ofList (attached r))
      | _ => do takeShort (← takeSwitch f s "") r

/-- Takes in a switch written by its name, perhaps with a value behind an equals sign. -/
def takeLong (f : Found) (a : List Char) : Except Stop (Found × Mode) :=
  let name := String.ofList (a.takeWhile (· ≠ '='))
  match g.switches.find? (·.name == name) with
  | none => .error .usage
  | some s =>
    match s.effect, a.dropWhile (· ≠ '=') with
    | .value _, [] => .ok (f, .awaiting s)
    | .value _, _ :: v => (·, .open) <$> takeSwitch f s (.ofList v)
    | _, [] => (·, .open) <$> takeSwitch f s ""
    | _, _ :: _ => .error .usage

/-- Takes in an argument where anything may come. -/
def takeOpen (f : Found) (a : String) : Except Stop (Found × Mode) :=
  match a.toList with
  | ['-', '-'] => .ok (f, .literal)
  | '-' :: '-' :: r => g.takeLong f r
  | '-' :: c :: r => g.takeShort f (c :: r)
  | _ => (·, .open) <$> g.takePositional f a

/-- An argument that is a switch and not a value. -/
def isSwitchLike (a : String) : Bool :=
  match a.toList with
  | '-' :: _ :: _ => true
  | _ => false

/-- Takes in the arguments. -/
def scan (f : Found) : Mode → List String → Except Stop Found
  | .awaiting _, [] => .error .usage
  | _, [] => .ok f
  | .awaiting s, a :: r =>
    if isSwitchLike a then .error .usage
    else do scan (← takeSwitch f s a) .open r
  | .literal, a :: r => do scan (← g.takePositional f a) .literal r
  | .open, a :: r =>
    if g.subcommands.contains a then .ok { f with subcommand := some (a, r) }
    else do
      let (f, m) ← g.takeOpen f a
      scan f m r

def read (args : List String) : Except Stop Found := g.scan {} .open args

end Grammar

end OpTree.Command
