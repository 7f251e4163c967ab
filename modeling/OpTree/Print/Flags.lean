import OpTree.Json.Decode
import OpTree.Json.Value

/-!
The switches of the text form, and their JSON form, in which every field may be missing.
-/

namespace OpTree.Print

open OpTree.Json
open OpTree.Json.Source

/-- What one level of indentation consists of. -/
inductive IndentStyle
  | spaces (n : Nat)
  | tabs
  deriving DecidableEq

namespace IndentStyle

def unit : IndentStyle → String
  | spaces n => String.ofList (List.replicate n ' ')
  | tabs => "\t"

def toJson : IndentStyle → Json.Value
  | spaces n => .tagged "Spaces" (.int n)
  | tabs => .string "Tabs"

def read (budget : Nat) : Source → Except Fault IndentStyle :=
  readVariant budget [.holding "Spaces" spaces fun _ _ => readSize, .plain "Tabs" tabs]

end IndentStyle

structure Flags where
  /-- Dense attributes with more elements than this are printed without them. -/
  elideAbove : Option Nat := none
  debugInfo : Bool := false
  valueUsers : Bool := false
  skipRegions : Bool := false
  useColors : Bool := false
  indent : IndentStyle := .spaces 2
  deriving DecidableEq

namespace Flags

/-- A dense attribute of `n` elements is printed without them. -/
def elides (f : Flags) (n : Nat) : Bool :=
  f.elideAbove.any (· < n)

def toJson (f : Flags) : Json.Value :=
  .object
    [ ("elide_large_elements_attrs", .ofOption (f.elideAbove.map fun n => .int n)),
      ("print_debug_info", .bool f.debugInfo),
      ("print_value_users", .bool f.valueUsers),
      ("skip_regions", .bool f.skipRegions),
      ("use_colors", .bool f.useColors),
      ("indent_style", f.indent.toJson) ]

def read (budget : Nat) : Source → Except Fault Flags :=
  readRecord budget "struct OpPrintingFlags"
    [ optionalField "elide_large_elements_attrs" (fun _ _ => readOption readSize)
        fun v r => { r with elideAbove := v },
      optionalField "print_debug_info" (fun _ _ => readBool) fun v r => { r with debugInfo := v },
      optionalField "print_value_users" (fun _ _ => readBool) fun v r => { r with valueUsers := v },
      optionalField "skip_regions" (fun _ _ => readBool) fun v r => { r with skipRegions := v },
      optionalField "use_colors" (fun _ _ => readBool) fun v r => { r with useColors := v },
      optionalField "indent_style" (fun n _ => IndentStyle.read n)
        fun v r => { r with indent := v } ]
    {}

end Flags

end OpTree.Print
